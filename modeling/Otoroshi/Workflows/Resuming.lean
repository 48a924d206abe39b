/-
# Resuming a workflow

A pause saves the position that follows its own, and a jump names a node, whose position is
looked up. The engine resumes a workflow by running its root with that position: every node
takes the first index for itself and hands the remainder to the child that it goes on with.

`Node.continueAt` is what has to be executed. It is the remainder of a run from the beginning
(`continueAt_of_reaches`), in which a pause does nothing (`continueAt_after`). A sequence does
not only hand the remainder to the step it goes on with, but to all steps after it, and a
pause that is a branch saves a position that names the other branch.
`resume_eq_continueAt_iff` says for which positions and memories this does no harm.
-/

import Otoroshi.Workflows.Remainders

namespace Otoroshi

namespace Workflows

variable (E : WorkflowEnv)

namespace Node

/-! ## Positions -/

mutual

/-- `collectSubNodes`. -/
def collectSubNodes : Node → List Nat → List (Node × List Nat)
  | workflow _ steps, path => collectSteps steps path 0
  | ifThenElse _ _ thenNode elseNode, path =>
      (thenNode, path ++ [0]) ::
        (collectSubNodes thenNode (path ++ [0]) ++ collectElse elseNode (path ++ [1]))
  | assign _ _, _ => []
  | value _ _, _ => []
  | call _ _ _ _, _ => []
  | pause _, _ => []
  | jump _ _ _ _, _ => []

def collectSteps : List Node → List Nat → Nat → List (Node × List Nat)
  | [], _, _ => []
  | child :: rest, path, idx =>
      (child, path ++ [idx]) ::
        (collectSubNodes child (path ++ [idx]) ++ collectSteps rest path (idx + 1))

def collectElse : Option Node → List Nat → List (Node × List Nat)
  | none, _ => []
  | some node, path => (node, path) :: collectSubNodes node path

end

/-- The position of the node that a jump names. -/
def jumpTarget (root : Node) (toId : Str) : Option (Node × List Nat) :=
  (root.collectSubNodes [0]).find? fun found => found.1.info.id = toId

end Node

/-- A pause that is reached, or a node that a jump finds. -/
inductive Position (root : Node)
  | pause (path : List Nat) (info : NodeInfo) (enabled : info.enabled = true)
      (isPause : root.at? path = some (.pause info))
  | jump (toId : Str) (node : Node) (path : List Nat)
      (found : root.jumpTarget toId = some (node, path))

namespace Position

variable {root : Node}

/-- The position that is saved, or looked up. -/
def recorded : Position root → List Nat
  | pause path _ _ _ => PauseNode.fromPath (0 :: path)
  | jump _ _ path _ => path

/-- The child indexes from the root. -/
def path : Position root → List Nat
  | pause path _ _ _ => path
  | jump _ _ path _ => path.tail

/-- Whether the node itself is done. -/
def after : Position root → Bool
  | pause _ _ _ _ => true
  | jump _ _ _ _ => false

end Position

/-- `WorkflowEngine.resume`, up to the end of the root. -/
def WorkflowEngine.resume (root : Node) (fromPath : List Nat) (memory : Memory) :
    Ran (Except WorkflowError JsValue) :=
  root.internalRun E [0] fromPath.tail memory

/-! ## What has to be executed -/

namespace Node

/-- Go on at a position, or after the node there: the steps that come after it in the
sequences around it are run from their beginning, and nothing else. -/
def continueAt (after : Bool) : List Nat → Node → List Nat → Memory →
    Ran (Except WorkflowError JsValue)
  | [], node, path, memory => if after then idle memory else node.internalRun E path [] memory
  | idx :: rest, workflow info steps, path, memory =>
      info.internalRun E (fun path _ memory =>
        match steps[idx]? with
        | none => (idle memory).ended
        | some step => ((continueAt after rest step (path ++ [idx]) memory).andThen
            (WorkflowNode.next (runners E (steps.drop (idx + 1))) path [] (idx + 1))).ended)
        path [] memory
  | idx :: rest, ifThenElse info _ thenNode elseNode, path, memory =>
      info.internalRun E (fun path _ memory =>
        match (thenNode :: elseNode.toList)[idx]? with
        | none => (idle memory).ended
        | some branch => (continueAt after rest branch (path ++ [idx]) memory).ended)
        path [] memory
  | _ :: _, _, _, memory => idle memory

/-- The position with its last index replaced by the next one. -/
def following : List Nat → List Nat
  | [] => []
  | [last] => [last + 1]
  | idx :: path => idx :: following path

/-- The position that the engine goes on with. -/
def recordedPath (after : Bool) (path : List Nat) : List Nat :=
  if after then following path else path

/-- Going on at the position hands no remainder to a node that minds it. -/
def InStep (after : Bool) : List Nat → Node → List Nat → Memory → Prop
  | [], _, _, _ => after = false
  | idx :: rest, workflow info steps, path, memory => info.enabled = true →
      (after = true ∧ rest = []) ∨
        ∀ step, steps[idx]? = some step → InStep after rest step (path ++ [idx]) memory ∧
          ∀ res, (step.continueAt E after rest (path ++ [idx]) memory).result = .ok res →
            followsSteps E (steps.drop (idx + 1)) 0 path (recordedPath after rest) (idx + 1)
              (step.continueAt E after rest (path ++ [idx]) memory).memory
  | idx :: rest, ifThenElse info _ thenNode elseNode, path, memory => info.enabled = true →
      if after = true ∧ rest = [] then ∀ node ∈ elseNode, node.info.enabled = false
      else ∀ branch, (thenNode :: elseNode.toList)[idx]? = some branch →
        InStep after rest branch (path ++ [idx]) memory
  | _ :: _, _, _, _ => True

variable {E}

theorem within_continueAt (after : Bool) (rest : List Nat) (node : Node) (path : List Nat)
    (memory : Memory) : Within path (node.continueAt E after rest path memory).log := by
  induction rest generalizing node path memory with
  | nil =>
      rw [continueAt]
      split
      · exact Within.nil path
      · exact node.within_internalRun path [] memory
  | cons idx rest ih =>
      cases node with
      | workflow info steps =>
          apply NodeInfo.within_internalRun
          cases hstep : steps[idx]? with
          | none => exact Within.nil path
          | some step =>
              apply WithinFrom.within
              apply WithinFrom.andThen ((ih step (path ++ [idx]) memory).withinFrom le_rfl)
              intro memory
              exact (withinFrom_steps _ path [] (idx + 1) memory).mono (Nat.le_succ idx)
      | ifThenElse info predicate thenNode elseNode =>
          apply NodeInfo.within_internalRun
          cases hbranch : (thenNode :: elseNode.toList)[idx]? with
          | none => exact Within.nil path
          | some branch =>
              exact ((ih branch (path ++ [idx]) memory).withinFrom le_rfl).within
      | assign info values => exact Within.nil path
      | value info json => exact Within.nil path
      | call info functionName args async => exact Within.nil path
      | pause info => exact Within.nil path
      | jump info predicate toId toPath => exact Within.nil path

/-! ## Going on at a position -/

theorem recordedPath_cons (after : Bool) (idx : Nat) {rest : List Nat}
    (h : ¬ (after = true ∧ rest = [])) :
    recordedPath after (idx :: rest) = idx :: recordedPath after rest := by
  cases after with
  | false => rfl
  | true =>
      cases rest with
      | nil => exact absurd ⟨rfl, rfl⟩ h
      | cons child rest => rfl

/-- A step that is gone on with, and the steps after it. -/
theorem run_workflow_cons {steps : List Node} {idx : Nat} {step : Node}
    (hstep : steps[idx]? = some step) (path rest : List Nat) (memory : Memory) :
    WorkflowNode.run (runners E steps) path (idx :: rest) memory =
      ((step.internalRun E (path ++ [idx]) rest memory).andThen
        (WorkflowNode.next (runners E (steps.drop (idx + 1))) path rest (idx + 1))).ended := by
  obtain ⟨hlt, hget⟩ := List.getElem?_eq_some_iff.mp hstep
  rw [WorkflowNode.run, drop_runners, List.drop_eq_getElem_cons hlt, hget]
  rfl

/-- The branch that a position names. -/
theorem run_ifThenElse_cons_of_branch (predicate : Option JsValue) {thenNode : Node}
    {elseNode : Option Node} {idx : Nat} {branch : Node}
    (hbranch : (thenNode :: elseNode.toList)[idx]? = some branch) (path rest : List Nat)
    (memory : Memory) :
    IfThenElseNode.run E predicate (thenNode.internalRun E) (runner E elseNode) path (idx :: rest)
      memory = (branch.internalRun E (path ++ [idx]) rest memory).ended := by
  rw [run_ifThenElse_cons]
  cases idx with
  | zero =>
      cases hbranch
      rfl
  | succ idx =>
      cases elseNode with
      | none => cases hbranch
      | some node =>
          cases idx with
          | zero =>
              cases hbranch
              rfl
          | succ idx => cases hbranch

/-- With the position that is recorded, the node goes on as it has to exactly if it hands no
remainder to a node that minds it, and its log tells. -/
def ContinuesExactly (E : WorkflowEnv) (after : Bool) (rest : List Nat) (node : Node) : Prop :=
  ∀ path memory,
    (node.InStep E after rest path memory →
      node.internalRun E path (recordedPath after rest) memory =
        node.continueAt E after rest path memory) ∧
    ((node.internalRun E path (recordedPath after rest) memory).log =
        (node.continueAt E after rest path memory).log →
      node.InStep E after rest path memory)

theorem continueAt_workflow {info : NodeInfo} {steps : List Node} {idx : Nat} {step : Node}
    (hstep : steps[idx]? = some step) (after : Bool) (rest path : List Nat) (memory : Memory) :
    (workflow info steps).continueAt E after (idx :: rest) path memory =
      info.internalRun E (fun path _ memory =>
        ((step.continueAt E after rest (path ++ [idx]) memory).andThen
          (WorkflowNode.next (runners E (steps.drop (idx + 1))) path [] (idx + 1))).ended)
        path [] memory := by
  rw [continueAt]
  simp only [hstep]

theorem continueAt_ifThenElse {info : NodeInfo} {predicate : Option JsValue} {thenNode : Node}
    {elseNode : Option Node} {idx : Nat} {branch : Node}
    (hbranch : (thenNode :: elseNode.toList)[idx]? = some branch) (after : Bool)
    (rest path : List Nat) (memory : Memory) :
    (ifThenElse info predicate thenNode elseNode).continueAt E after (idx :: rest) path memory =
      info.internalRun E (fun path _ memory =>
        (branch.continueAt E after rest (path ++ [idx]) memory).ended) path [] memory := by
  rw [continueAt]
  simp only [hbranch]

theorem continuesExactly_of_not_enabled {after : Bool} {idx : Nat} {rest : List Nat}
    {node child : Node} (h : node.info.enabled = false) (hchild : node.subNodes[idx]? = some child) :
    node.ContinuesExactly E after (idx :: rest) := by
  intro path memory
  have hnot : ¬ node.info.enabled = true := by simp [h]
  rw [internalRun_of_not_enabled h]
  cases node with
  | workflow info steps =>
      have hinfo : info.enabled = false := h
      rw [continueAt, NodeInfo.internalRun_of_not_enabled hinfo]
      exact ⟨fun _ => rfl, fun _ htrue => absurd htrue hnot⟩
  | ifThenElse info predicate thenNode elseNode =>
      have hinfo : info.enabled = false := h
      rw [continueAt, NodeInfo.internalRun_of_not_enabled hinfo]
      exact ⟨fun _ => rfl, fun _ htrue => absurd htrue hnot⟩
  | assign info values => cases hchild
  | value info json => cases hchild
  | call info functionName args async => cases hchild
  | pause info => cases hchild
  | jump info predicate toId toPath => cases hchild

theorem continuesExactly_workflow {info : NodeInfo} (henabled : info.enabled = true)
    {steps : List Node} {idx : Nat} {step : Node} (hstep : steps[idx]? = some step) {after : Bool}
    {rest : List Nat} (ih : step.ContinuesExactly E after rest) :
    (workflow info steps).ContinuesExactly E after (idx :: rest) := by
  intro path memory
  rw [continueAt_workflow hstep]
  by_cases hlast : after = true ∧ rest = []
  · obtain ⟨rfl, rfl⟩ := hlast
    have hrun : WorkflowNode.run (runners E steps) path [idx + 1] memory =
        ((step.continueAt E true [] (path ++ [idx]) memory).andThen (WorkflowNode.next
          (runners E (steps.drop (idx + 1))) path [] (idx + 1))).ended := by
      rw [WorkflowNode.run, drop_runners]
      rfl
    constructor
    · intro _
      show info.internalRun E (WorkflowNode.run (runners E steps)) path [idx + 1] memory = _
      rw [NodeInfo.internalRun, NodeInfo.internalRun, hrun]
    · exact fun _ _ => .inl ⟨rfl, rfl⟩
  · rw [recordedPath_cons after idx hlast]
    have hrun := run_workflow_cons (E := E) hstep path (recordedPath after rest) memory
    have hfollows := fun (node : Node) (_ : node ∈ steps.drop (idx + 1)) =>
      followsExactly (E := E) node
    have hstepRun := ih (path ++ [idx]) memory
    constructor
    · intro hinStep
      have hgo := (hinStep henabled).resolve_left hlast step hstep
      have hsame : WorkflowNode.run (runners E steps) path (idx :: recordedPath after rest) memory =
          ((step.continueAt E after rest (path ++ [idx]) memory).andThen (WorkflowNode.next
            (runners E (steps.drop (idx + 1))) path [] (idx + 1))).ended := by
        rw [hrun, hstepRun.1 hgo.1]
        congr 1
        apply andThen_congr
        intro res hres
        exact next_eq_of_followsSteps hfollows (hgo.2 res hres)
      rw [internalRun, NodeInfo.internalRun, NodeInfo.internalRun, hsame]
    · intro hlog _
      have hwithin : WithinFrom path 0 (((step.continueAt E after rest (path ++ [idx])
          memory).andThen (WorkflowNode.next (runners E (steps.drop (idx + 1))) path []
            (idx + 1))).ended).log := by
        apply WithinFrom.andThen
          ((within_continueAt after rest step (path ++ [idx]) memory).withinFrom (Nat.zero_le idx))
        intro memory
        exact (withinFrom_steps _ path [] (idx + 1) memory).mono (Nat.zero_le (idx + 1))
      have hrunLog := (NodeInfo.log_eq_of_internalRun henabled
        (withinFrom_workflow (fun step _ => step.within_internalRun) path _ memory) hwithin hlog).1
      rw [hrun] at hrunLog
      have hstepLog := log_eq_of_andThen (step.within_internalRun _ _ _)
        (within_continueAt after rest step (path ++ [idx]) memory)
        (withinFrom_steps _ path _ (idx + 1)) (withinFrom_steps _ path [] (idx + 1)) hrunLog
      have hgo := hstepRun.2 hstepLog
      right
      intro other hother
      cases hstep.symm.trans hother
      refine ⟨hgo, ?_⟩
      intro res hres
      rw [hstepRun.1 hgo] at hrunLog
      exact followsSteps_of_log_eq hfollows (log_eq_of_andThen_of_ok hres hrunLog)

theorem continuesExactly_ifThenElse {info : NodeInfo} (henabled : info.enabled = true)
    {predicate : Option JsValue} {thenNode : Node} {elseNode : Option Node} {idx : Nat}
    {branch : Node} (hbranch : (thenNode :: elseNode.toList)[idx]? = some branch) {after : Bool}
    {rest : List Nat} (ih : branch.ContinuesExactly E after rest) :
    (ifThenElse info predicate thenNode elseNode).ContinuesExactly E after (idx :: rest) := by
  intro path memory
  rw [continueAt_ifThenElse hbranch]
  have hwithin : WithinFrom path 0
      (branch.continueAt E after rest (path ++ [idx]) memory).ended.log :=
    (within_continueAt after rest branch (path ++ [idx]) memory).withinFrom (Nat.zero_le idx)
  have hlogs : (info.internalRun E (IfThenElseNode.run E predicate (thenNode.internalRun E)
        (runner E elseNode)) path (recordedPath after (idx :: rest)) memory).log =
      (info.internalRun E (fun path _ memory =>
        (branch.continueAt E after rest (path ++ [idx]) memory).ended) path [] memory).log →
      (IfThenElseNode.run E predicate (thenNode.internalRun E) (runner E elseNode) path
        (recordedPath after (idx :: rest)) memory).log =
          (branch.continueAt E after rest (path ++ [idx]) memory).ended.log := by
    intro hlog
    exact (NodeInfo.log_eq_of_internalRun henabled
      (withinFrom_ifThenElse predicate thenNode.within_internalRun
        (fun node (_ : node ∈ elseNode) => node.within_internalRun) path _ memory) hwithin hlog).1
  by_cases hlast : after = true ∧ rest = []
  · obtain ⟨rfl, rfl⟩ := hlast
    have hrun := run_ifThenElse_cons (E := E) predicate thenNode elseNode path [] (idx + 1) memory
    rw [if_neg (Nat.succ_ne_zero idx)] at hrun
    have hstep : (ifThenElse info predicate thenNode elseNode).InStep E true [idx] path memory ↔
        ∀ node ∈ elseNode, node.info.enabled = false := by
      rw [InStep, if_pos ⟨rfl, rfl⟩]
      exact forall_prop_of_true henabled
    rw [hstep]
    constructor
    · intro helse
      show info.internalRun E (IfThenElseNode.run E predicate (thenNode.internalRun E)
        (runner E elseNode)) path [idx + 1] memory = _
      rw [NodeInfo.internalRun, NodeInfo.internalRun, hrun, elim_of_not_enabled helse]
      rfl
    · intro hlog
      have hrunLog := hlogs hlog
      rw [show recordedPath true [idx] = [idx + 1] from rfl, hrun] at hrunLog
      exact not_enabled_of_elim_log hrunLog
  · rw [recordedPath_cons after idx hlast] at hlogs ⊢
    have hrun := run_ifThenElse_cons_of_branch (E := E) predicate hbranch path
      (recordedPath after rest) memory
    have hstep : (ifThenElse info predicate thenNode elseNode).InStep E after (idx :: rest) path
        memory ↔ branch.InStep E after rest (path ++ [idx]) memory := by
      rw [InStep, if_neg hlast, forall_prop_of_true henabled]
      constructor
      · intro h
        exact h branch hbranch
      · intro h other hother
        cases hbranch.symm.trans hother
        exact h
    rw [hstep]
    constructor
    · intro hgo
      rw [internalRun, NodeInfo.internalRun, NodeInfo.internalRun, hrun, (ih _ memory).1 hgo]
    · intro hlog
      have hrunLog := hlogs hlog
      rw [hrun] at hrunLog
      exact (ih (path ++ [idx]) memory).2 hrunLog

theorem continuesExactly {after : Bool} {rest : List Nat} {node target : Node}
    (htarget : node.at? rest = some target) (hafter : after = true → target.info.enabled = true) :
    node.ContinuesExactly E after rest := by
  induction rest generalizing node with
  | nil =>
      cases htarget
      intro path memory
      cases hcase : after with
      | false => exact ⟨fun _ => rfl, fun _ => rfl⟩
      | true =>
          constructor
          · exact nofun
          · intro hlog
            exact absurd hlog (internalRun_log_ne_nil (hafter hcase) path [] memory)
  | cons idx rest ih =>
      rw [at?] at htarget
      obtain ⟨child, hchild, hat⟩ := Option.bind_eq_some_iff.mp htarget
      cases henabled : node.info.enabled with
      | false => exact continuesExactly_of_not_enabled henabled hchild
      | true =>
          cases node with
          | workflow info steps => exact continuesExactly_workflow henabled hchild (ih hat)
          | ifThenElse info predicate thenNode elseNode =>
              exact continuesExactly_ifThenElse henabled hchild (ih hat)
          | assign info values => cases hchild
          | value info json => cases hchild
          | call info functionName args async => cases hchild
          | pause info => cases hchild
          | jump info predicate toId toPath => cases hchild

/-! ## The recorded positions -/

theorem exists_of_mem_collectSteps {steps : List Node} {found : Node} {path pre : List Nat}
    {idx : Nat} (ih : ∀ other ∈ steps, ∀ pre, (found, path) ∈ other.collectSubNodes pre →
      ∃ child rest, path = pre ++ child :: rest ∧ other.at? (child :: rest) = some found)
    (h : (found, path) ∈ collectSteps steps pre idx) :
    ∃ child rest step, path = pre ++ (idx + child) :: rest ∧ steps[child]? = some step ∧
      step.at? rest = some found := by
  induction steps generalizing idx with
  | nil => cases h
  | cons step steps ihsteps =>
      rw [List.forall_mem_cons] at ih
      rw [collectSteps, List.mem_cons, List.mem_append] at h
      obtain heq | hstep | hsteps := h
      · cases heq
        exact ⟨0, [], found, rfl, rfl, rfl⟩
      · obtain ⟨child, rest, rfl, hat⟩ := ih.1 _ hstep
        exact ⟨0, child :: rest, step, by simp, rfl, hat⟩
      · obtain ⟨child, rest, other, rfl, hother, hat⟩ := ihsteps ih.2 hsteps
        exact ⟨child + 1, rest, other, by simp [Nat.add_assoc, Nat.add_comm 1], hother, hat⟩

/-- What a jump can find is at the position that is found with it. -/
theorem exists_of_mem_collectSubNodes {node found : Node} {path pre : List Nat}
    (h : (found, path) ∈ node.collectSubNodes pre) :
    ∃ child rest, path = pre ++ child :: rest ∧ node.at? (child :: rest) = some found := by
  induction node using Node.induction generalizing pre with
  | workflow info steps ih =>
      obtain ⟨child, rest, step, rfl, hstep, hat⟩ :=
        exists_of_mem_collectSteps (fun step hstep pre hmem => ih step hstep hmem) h
      refine ⟨child, rest, by simp, ?_⟩
      rw [at?, subNodes, hstep]
      exact hat
  | ifThenElse info predicate thenNode elseNode ihthen ihelse =>
      rw [collectSubNodes, List.mem_cons, List.mem_append] at h
      obtain heq | hthen | helse := h
      · cases heq
        exact ⟨0, [], rfl, rfl⟩
      · obtain ⟨child, rest, rfl, hat⟩ := ihthen hthen
        exact ⟨0, child :: rest, by simp, hat⟩
      · cases elseNode with
        | none => cases helse
        | some node =>
            rw [collectElse, List.mem_cons] at helse
            obtain heq | hnode := helse
            · cases heq
              exact ⟨1, [], rfl, rfl⟩
            · obtain ⟨child, rest, rfl, hat⟩ := ihelse node rfl hnode
              exact ⟨1, child :: rest, by simp, hat⟩
  | assign info values => cases h
  | value info json => cases h
  | call info functionName args async => cases h
  | pause info => cases h
  | jump info predicate toId toPath => cases h

theorem following_eq {path : List Nat} (h : path ≠ []) :
    following path = path.dropLast ++ [path.getLast h + 1] := by
  induction path with
  | nil => contradiction
  | cons idx path ih =>
      cases path with
      | nil => rfl
      | cons child path =>
          rw [following, ih (List.cons_ne_nil child path), List.dropLast_cons_cons,
            List.getLast_cons (List.cons_ne_nil child path), List.cons_append]
          nofun

end Node

theorem PauseNode.tail_fromPath (path : List Nat) :
    (PauseNode.fromPath (0 :: path)).tail = Node.following path := by
  cases path with
  | nil => rfl
  | cons idx path =>
      have hlast : (0 :: idx :: path).getLast? =
          some ((idx :: path).getLast (List.cons_ne_nil idx path)) := by
        rw [List.getLast?_cons_cons, List.getLast?_eq_getLast_of_ne_nil]
      rw [PauseNode.fromPath, hlast, Node.following_eq (List.cons_ne_nil idx path)]
      rfl

namespace Position

variable {root : Node}

/-- The engine goes on with the remainder below the root. -/
theorem tail_recorded (position : Position root) :
    position.recorded.tail = Node.recordedPath position.after position.path := by
  cases position with
  | pause path info enabled isPause => exact PauseNode.tail_fromPath path
  | jump toId node path found => rfl

theorem exists_at? (position : Position root) :
    ∃ target, root.at? position.path = some target ∧
      (position.after = true → target.info.enabled = true) := by
  cases position with
  | pause path info enabled isPause => exact ⟨_, isPause, fun _ => enabled⟩
  | jump toId node path found =>
      obtain ⟨child, rest, rfl, hat⟩ :=
        Node.exists_of_mem_collectSubNodes (List.mem_of_find?_eq_some found)
      exact ⟨node, hat, nofun⟩

end Position

/-- A workflow that is resumed goes on as it has to exactly if its position is in step. -/
theorem resume_eq_continueAt_iff (E : WorkflowEnv) (root : Node) (position : Position root)
    (memory : Memory) :
    WorkflowEngine.resume E root position.recorded memory =
        root.continueAt E position.after position.path [0] memory ↔
      root.InStep E position.after position.path [0] memory := by
  obtain ⟨target, hat, hafter⟩ := position.exists_at?
  have hexact := Node.continuesExactly (E := E) hat hafter [0] memory
  rw [WorkflowEngine.resume, position.tail_recorded]
  constructor
  · intro hsame
    exact hexact.2 (congrArg Ran.log hsame)
  · exact hexact.1

/-- A sequence in a sequence, with a pause in the inner one and a call after it. -/
def exampleNode : Node :=
  .workflow { id := "main".toList } [
    .workflow { id := "inner".toList } [
      .pause { id := "pause".toList }, .value { id := "value".toList } (some .null)],
    .call { id := "hello".toList } "core.hello".toList (.object []) false]

/-- The call after the inner sequence gets the remainder of the position, and is refused. -/
theorem exists_resume_ne_continueAt :
    ¬ ∀ (E : WorkflowEnv) (root : Node) (position : Position root) (memory : Memory),
      WorkflowEngine.resume E root position.recorded memory =
        root.continueAt E position.after position.path [0] memory := by
  intro h
  have hlog := congrArg Ran.log (h plainEnv exampleNode
    (.pause [0, 0] { id := "pause".toList } rfl rfl) (fun _ => none))
  revert hlog
  decide

/-! ## The remainder of a run from the beginning -/

namespace Node

variable {E}

/-- Two runs of which the second starts where the first one is already: they end alike, and
log the same from there on. -/
structure Agrees {α : Type} (before started : List LogItem) (whole remainder : Ran α) : Prop where
  result : whole.result = remainder.result
  memory : whole.memory = remainder.memory
  log : ∃ later, whole.log = before ++ later ∧ remainder.log = started ++ later

theorem Agrees.andThen {before started : List LogItem}
    {whole remainder : Ran (Except WorkflowError JsValue)}
    (h : Agrees before started whole remainder)
    (next : Memory → Ran (Except WorkflowError JsValue)) :
    Agrees before started (whole.andThen next) (remainder.andThen next) := by
  obtain ⟨later, hwhole, hremainder⟩ := h.log
  cases hresult : remainder.result with
  | error err =>
      rw [Ran.andThen_of_error hresult, Ran.andThen_of_error (h.result.trans hresult)]
      exact h
  | ok res =>
      rw [Ran.andThen_of_ok hresult, Ran.andThen_of_ok (h.result.trans hresult), h.memory, hwhole,
        hremainder]
      exact ⟨rfl, rfl, _, List.append_assoc .., List.append_assoc ..⟩

theorem Agrees.internalRun {before started : List LogItem} {info : NodeInfo}
    (henabled : info.enabled = true) {run run' : List Nat → List Nat → Memory → Ran Ended}
    {path fromPath : List Nat} {memory memory' : Memory}
    (h : Agrees before started (run path fromPath memory) (run' path fromPath memory')) :
    Agrees (⟨path, .starting⟩ :: before) (⟨path, .starting⟩ :: started)
      (info.internalRun E run path fromPath memory)
      (info.internalRun E run' path fromPath memory') := by
  obtain ⟨later, hwhole, hremainder⟩ := h.log
  rw [NodeInfo.internalRun_of_enabled henabled, NodeInfo.internalRun_of_enabled henabled, h.result,
    h.memory, hwhole, hremainder]
  refine ⟨rfl, rfl, later ++ (info.finish E path (run' path fromPath memory').memory
    (run' path fromPath memory').result).log, ?_, ?_⟩
  · rw [List.cons_append, List.append_assoc]
  · rw [List.cons_append, List.append_assoc]

theorem Agrees.ended {before started : List LogItem}
    {whole remainder : Ran (Except WorkflowError JsValue)}
    (h : Agrees before started whole remainder) :
    Agrees before started whole.ended remainder.ended := by
  refine ⟨?_, h.memory, h.log⟩
  rw [Ran.ended, Ran.ended, h.result]

theorem Agrees.append {before started earlier : List LogItem} {α : Type}
    {whole remainder : Ran α} (h : Agrees before started whole remainder) :
    Agrees (earlier ++ before) started { whole with log := earlier ++ whole.log } remainder := by
  obtain ⟨later, hwhole, hremainder⟩ := h.log
  refine ⟨h.result, h.memory, later, ?_, hremainder⟩
  show earlier ++ whole.log = _
  rw [hwhole, List.append_assoc]

/-- The memory with which a run from the beginning gets to a position, if it does. -/
def reaches (E : WorkflowEnv) : List Nat → Node → List Nat → Memory → Option Memory
  | [], _, _, memory => some memory
  | idx :: rest, workflow info steps, path, memory =>
      if info.enabled then
        let before := WorkflowNode.next (runners E (steps.take idx)) path [] 0 memory
        match before.result with
        | .error _ => none
        | .ok _ => steps[idx]?.bind fun step => reaches E rest step (path ++ [idx]) before.memory
      else none
  | idx :: rest, ifThenElse info predicate thenNode elseNode, path, memory =>
      if info.enabled = true ∧ passes E predicate memory = some (idx == 0) then
        (thenNode :: elseNode.toList)[idx]?.bind fun branch =>
          reaches E rest branch (path ++ [idx]) memory
      else none
  | _ :: _, _, _, _ => none

/-- What the nodes above a position log when they are resumed. -/
def startedAbove : List Nat → List Nat → List LogItem
  | _, [] => []
  | path, idx :: rest => ⟨path, .starting⟩ :: startedAbove (path ++ [idx]) rest

theorem andThen_assoc (ran : Ran (Except WorkflowError JsValue))
    (next following : Memory → Ran (Except WorkflowError JsValue)) :
    (ran.andThen next).andThen following =
      ran.andThen fun memory => (next memory).andThen following := by
  cases hresult : ran.result with
  | error err => simp only [Ran.andThen, hresult]
  | ok res =>
      cases hnext : (next ran.memory).result <;>
        simp only [Ran.andThen, hresult, hnext, List.append_assoc]

/-- The steps of a sequence, in two parts. -/
theorem next_append (first second : List Node) (path fromPath : List Nat) (idx : Nat)
    (memory : Memory) :
    WorkflowNode.next (runners E (first ++ second)) path fromPath idx memory =
      (WorkflowNode.next (runners E first) path fromPath idx memory).andThen
        (WorkflowNode.next (runners E second) path fromPath (idx + first.length)) := by
  induction first generalizing idx memory with
  | nil => rfl
  | cons step first ih =>
      rw [List.cons_append, next_cons, next_cons, andThen_assoc]
      apply andThen_congr
      intro res hres
      rw [ih, List.length_cons, Nat.add_comm first.length 1, ← Nat.add_assoc]

/-- The steps of a sequence, up to one of them and from it on. -/
theorem next_eq_of_getElem? {steps : List Node} {idx : Nat} {step : Node}
    (hstep : steps[idx]? = some step) (path : List Nat) (memory : Memory) :
    WorkflowNode.next (runners E steps) path [] 0 memory =
      (WorkflowNode.next (runners E (steps.take idx)) path [] 0 memory).andThen fun memory =>
        (step.internalRun E (path ++ [idx]) [] memory).andThen
          (WorkflowNode.next (runners E (steps.drop (idx + 1))) path [] (idx + 1)) := by
  obtain ⟨hlt, hget⟩ := List.getElem?_eq_some_iff.mp hstep
  have hsplit : steps = steps.take idx ++ step :: steps.drop (idx + 1) := by
    rw [← hget, List.getElem_cons_drop, List.take_append_drop]
  have hlength : (steps.take idx).length = idx := by
    rw [List.length_take, Nat.min_eq_left hlt.le]
  have hnext := next_append (E := E) (steps.take idx) (step :: steps.drop (idx + 1)) path [] 0
    memory
  rw [← hsplit, hlength, Nat.zero_add] at hnext
  exact hnext

/-- The branch that is run from the beginning. -/
theorem run_ifThenElse_of_branch {predicate : Option JsValue} {thenNode : Node}
    {elseNode : Option Node} {idx : Nat} {branch : Node} {memory : Memory}
    (hpass : passes E predicate memory = some (idx == 0))
    (hbranch : (thenNode :: elseNode.toList)[idx]? = some branch) (path : List Nat) :
    IfThenElseNode.run E predicate (thenNode.internalRun E) (runner E elseNode) path [] memory =
      (branch.internalRun E (path ++ [idx]) [] memory).ended := by
  rw [run_ifThenElse_nil hpass]
  cases idx with
  | zero =>
      cases hbranch
      rfl
  | succ idx =>
      cases elseNode with
      | none => cases hbranch
      | some node =>
          cases idx with
          | zero =>
              cases hbranch
              rfl
          | succ idx => cases hbranch

/-- What goes on at a position that a run from the beginning gets to is the remainder of that
run. -/
theorem continueAt_of_reaches {rest : List Nat} {node : Node} {path : List Nat}
    {memory reached : Memory} (h : node.reaches E rest path memory = some reached) :
    ∃ before, Agrees before (startedAbove path rest) (node.internalRun E path [] memory)
      (node.continueAt E false rest path reached) := by
  induction rest generalizing node path memory with
  | nil =>
      cases h
      exact ⟨[], rfl, rfl, _, rfl, rfl⟩
  | cons idx rest ih =>
      cases node with
      | workflow info steps =>
          rw [reaches] at h
          split at h
          · next henabled =>
              cases hbefore : (WorkflowNode.next (runners E (steps.take idx)) path [] 0
                memory).result with
              | error err =>
                  simp only [hbefore] at h
                  cases h
              | ok res =>
                  simp only [hbefore] at h
                  obtain ⟨step, hstep, hreaches⟩ := Option.bind_eq_some_iff.mp h
                  obtain ⟨before, hagrees⟩ := ih hreaches
                  refine ⟨⟨path, .starting⟩ :: ((WorkflowNode.next (runners E (steps.take idx)) path
                    [] 0 memory).log ++ before), ?_⟩
                  rw [continueAt_workflow hstep]
                  apply Agrees.internalRun henabled
                  rw [WorkflowNode.run, next_eq_of_getElem? hstep, Ran.andThen_of_ok hbefore]
                  exact (hagrees.andThen _).append.ended
          · cases h
      | ifThenElse info predicate thenNode elseNode =>
          rw [reaches] at h
          split at h
          · next henabled =>
              obtain ⟨branch, hbranch, hreaches⟩ := Option.bind_eq_some_iff.mp h
              obtain ⟨before, hagrees⟩ := ih hreaches
              refine ⟨⟨path, .starting⟩ :: before, ?_⟩
              rw [continueAt_ifThenElse hbranch]
              apply Agrees.internalRun henabled.1
              rw [run_ifThenElse_of_branch henabled.2 hbranch]
              exact hagrees.ended
          · cases h
      | assign info values => cases h
      | value info json => cases h
      | call info functionName args async => cases h
      | pause info => cases h
      | jump info predicate toId toPath => cases h

/-- The node with the one at a position not enabled. -/
def disable : Node → Node
  | workflow info steps => workflow { info with enabled := false } steps
  | ifThenElse info predicate thenNode elseNode =>
      ifThenElse { info with enabled := false } predicate thenNode elseNode
  | assign info values => assign { info with enabled := false } values
  | value info json => value { info with enabled := false } json
  | call info functionName args async =>
      call { info with enabled := false } functionName args async
  | pause info => pause { info with enabled := false }
  | jump info predicate toId toPath => jump { info with enabled := false } predicate toId toPath

def disableAt : List Nat → Node → Node
  | [], node => node.disable
  | idx :: rest, workflow info steps => workflow info (steps.modify idx (disableAt rest))
  | 0 :: rest, ifThenElse info predicate thenNode elseNode =>
      ifThenElse info predicate (disableAt rest thenNode) elseNode
  | 1 :: rest, ifThenElse info predicate thenNode elseNode =>
      ifThenElse info predicate thenNode (elseNode.map (disableAt rest))
  | _ :: _, node => node

theorem disable_info_enabled (node : Node) : node.disable.info.enabled = false := by
  cases node <;> rfl

/-- What goes on after a node is what goes on at it if it is not enabled. -/
theorem continueAt_after (rest : List Nat) (node : Node) (path : List Nat) (memory : Memory) :
    node.continueAt E true rest path memory =
      (node.disableAt rest).continueAt E false rest path memory := by
  induction rest generalizing node path memory with
  | nil => exact (internalRun_of_not_enabled node.disable_info_enabled path [] memory).symm
  | cons idx rest ih =>
      cases node with
      | workflow info steps =>
          rw [disableAt, continueAt, continueAt, List.getElem?_modify_eq,
            List.drop_modify_of_lt _ _ _ _ (Nat.lt_succ_self idx)]
          cases steps[idx]? with
          | none => rfl
          | some step =>
              simp only [ih]
              rfl
      | ifThenElse info predicate thenNode elseNode =>
          cases idx with
          | zero =>
              rw [disableAt, continueAt, continueAt]
              simp only [List.getElem?_cons_zero, ih]
          | succ idx =>
              cases idx with
              | zero =>
                  rw [disableAt, continueAt, continueAt]
                  cases elseNode with
                  | none => rfl
                  | some node =>
                      simp only [List.getElem?_cons_succ, Option.map_some, Option.toList_some,
                        List.getElem?_cons_zero, ih]
              | succ idx => cases elseNode <;> rfl
      | assign info values => cases idx <;> rfl
      | value info json => cases idx <;> rfl
      | call info functionName args async => cases idx <;> rfl
      | pause info => cases idx <;> rfl
      | jump info predicate toId toPath => cases idx <;> rfl

end Node

/-- The workflow whose run is gone on with: a pause does nothing in it. -/
def Position.passed {root : Node} (position : Position root) : Node :=
  if position.after then root.disableAt position.path else root

/-- A workflow that is resumed in step, with the memory that a run from the beginning has there,
ends as that run does, and logs the same from there on. -/
theorem resume_agrees (E : WorkflowEnv) {root : Node} (position : Position root)
    {memory reached : Memory}
    (hreaches : position.passed.reaches E position.path [0] memory = some reached)
    (hinStep : root.InStep E position.after position.path [0] reached) :
    ∃ before, Node.Agrees before (Node.startedAbove [0] position.path)
      (position.passed.internalRun E [0] [] memory)
      (WorkflowEngine.resume E root position.recorded reached) := by
  obtain ⟨target, hat, hafter⟩ := position.exists_at?
  have hpassed : root.continueAt E position.after position.path [0] reached =
      position.passed.continueAt E false position.path [0] reached := by
    rw [Position.passed]
    cases position.after with
    | true => exact Node.continueAt_after position.path root [0] reached
    | false => rfl
  rw [WorkflowEngine.resume, position.tail_recorded,
    (Node.continuesExactly hat hafter [0] reached).1 hinStep, hpassed]
  exact Node.continueAt_of_reaches hreaches

/-- A sequence with a pause. -/
def pausedNode : Node :=
  .workflow { id := "main".toList } [
    .pause { id := "pause".toList }, .value { id := "value".toList } (some .null)]

def pausedPosition : Position pausedNode := .pause [0] { id := "pause".toList } rfl rfl

theorem resume_agrees_pausedNode :
    ∃ before, Node.Agrees before (Node.startedAbove [0] [0])
      (pausedPosition.passed.internalRun plainEnv [0] [] fun _ => none)
      (WorkflowEngine.resume plainEnv pausedNode pausedPosition.recorded fun _ => none) :=
  resume_agrees plainEnv pausedPosition rfl fun _ => .inl ⟨rfl, rfl⟩

end Workflows

end Otoroshi
