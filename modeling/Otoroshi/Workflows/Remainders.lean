/-
# Nodes and remainders of positions

A node that is resumed gets the remainder of a position. `Node.Follows` says when a node does
with the remainder what it does from its beginning, and `Node.followsExactly` that it says no
more than that.
-/

import Otoroshi.Workflows.Logs

namespace Otoroshi

namespace Workflows

namespace Node

variable (E : WorkflowEnv)

mutual

/-- With the remainder, the node does what it does from its beginning: it does not look at
it, it skips no step that is enabled, and it takes the branch that its predicate says. -/
def Follows : Node → List Nat → List Nat → Memory → Prop
  | workflow info steps, path, fromPath, memory => info.enabled = true →
      match fromPath with
      | [] => True
      | skipped :: rest => followsSteps steps skipped path rest 0 memory
  | ifThenElse info predicate thenNode elseNode, path, fromPath, memory => info.enabled = true →
      match fromPath with
      | [] => True
      | head :: rest => ∃ pass, passes E predicate memory = some pass ∧
          if pass = (head == 0) then
            if pass then thenNode.Follows (path ++ [0]) rest memory
            else followsElse elseNode (path ++ [1]) rest memory
          else thenNode.info.enabled = false ∧ ∀ node ∈ elseNode, node.info.enabled = false
  | assign info _, _, fromPath, _ => info.enabled = true → fromPath = []
  | value _ _, _, _, _ => True
  | call info _ _ _, _, fromPath, _ => info.enabled = true → fromPath = []
  | pause _, _, _, _ => True
  | jump _ _ _ _, _, _, _ => True

/-- The steps that are skipped are not enabled, and those that are run after them, one after
the other, do not mind the remainder. -/
def followsSteps : List Node → Nat → List Nat → List Nat → Nat → Memory → Prop
  | [], _, _, _, _, _ => True
  | step :: steps, skipped + 1, path, rest, idx, memory =>
      step.info.enabled = false ∧ followsSteps steps skipped path rest (idx + 1) memory
  | step :: steps, 0, path, rest, idx, memory =>
      step.Follows (path ++ [idx]) rest memory ∧
        ∀ res, (step.internalRun E (path ++ [idx]) [] memory).result = .ok res →
          followsSteps steps 0 path rest (idx + 1)
            (step.internalRun E (path ++ [idx]) [] memory).memory

def followsElse : Option Node → List Nat → List Nat → Memory → Prop
  | none, _, _, _ => True
  | some node, path, rest, memory => node.Follows path rest memory

end

variable {E}

/-- The node does with a remainder what it does from its beginning exactly if it does not mind
it, and its log tells. -/
def FollowsExactly (E : WorkflowEnv) (node : Node) : Prop :=
  ∀ path fromPath memory,
    (node.Follows E path fromPath memory →
      node.internalRun E path fromPath memory = node.internalRun E path [] memory) ∧
    ((node.internalRun E path fromPath memory).log = (node.internalRun E path [] memory).log →
      node.Follows E path fromPath memory)

theorem next_cons (step : Node) (steps : List Node) (path fromPath : List Nat) (idx : Nat)
    (memory : Memory) :
    WorkflowNode.next (runners E (step :: steps)) path fromPath idx memory =
      (step.internalRun E (path ++ [idx]) fromPath memory).andThen
        (WorkflowNode.next (runners E steps) path fromPath (idx + 1)) := rfl

theorem next_cons_of_not_enabled {step : Node} (h : step.info.enabled = false) (steps : List Node)
    (path fromPath : List Nat) (idx : Nat) (memory : Memory) :
    WorkflowNode.next (runners E (step :: steps)) path fromPath idx memory =
      WorkflowNode.next (runners E steps) path fromPath (idx + 1) memory := by
  rw [next_cons, internalRun_of_not_enabled h, idle_andThen]

/-- Steps that do not mind the remainder are run as from the beginning. -/
theorem next_eq_of_followsSteps {steps : List Node} (hsteps : ∀ step ∈ steps, step.FollowsExactly E)
    {skipped : Nat} {path rest : List Nat} {idx : Nat} {memory : Memory}
    (h : followsSteps E steps skipped path rest idx memory) :
    WorkflowNode.next (runners E (steps.drop skipped)) path rest (idx + skipped) memory =
      WorkflowNode.next (runners E steps) path [] idx memory := by
  induction steps generalizing skipped idx memory with
  | nil =>
      rw [List.drop_nil]
      rfl
  | cons step steps ih =>
      rw [List.forall_mem_cons] at hsteps
      cases skipped with
      | zero =>
          rw [List.drop_zero, Nat.add_zero, next_cons, next_cons,
            (hsteps.1 (path ++ [idx]) rest memory).1 h.1]
          apply andThen_congr
          intro res hres
          exact ih hsteps.2 (h.2 res hres)
      | succ skipped =>
          rw [List.drop_succ_cons, next_cons_of_not_enabled h.1, ← ih hsteps.2 h.2]
          congr 1
          omega

/-- Steps that are run as from the beginning do not mind the remainder. -/
theorem followsSteps_of_log_eq {steps : List Node} (hsteps : ∀ step ∈ steps, step.FollowsExactly E)
    {skipped : Nat} {path rest : List Nat} {idx : Nat} {memory : Memory}
    (h : (WorkflowNode.next (runners E (steps.drop skipped)) path rest (idx + skipped) memory).log =
      (WorkflowNode.next (runners E steps) path [] idx memory).log) :
    followsSteps E steps skipped path rest idx memory := by
  induction steps generalizing skipped idx memory with
  | nil => trivial
  | cons step steps ih =>
      rw [List.forall_mem_cons] at hsteps
      cases skipped with
      | zero =>
          rw [List.drop_zero, Nat.add_zero, next_cons, next_cons] at h
          have hstep := hsteps.1 (path ++ [idx]) rest memory
          have hfollows := hstep.2 (log_eq_of_andThen (step.within_internalRun _ _ _)
            (step.within_internalRun _ _ _) (withinFrom_steps steps path rest (idx + 1))
            (withinFrom_steps steps path [] (idx + 1)) h)
          refine ⟨hfollows, ?_⟩
          intro res hres
          rw [hstep.1 hfollows] at h
          exact ih hsteps.2 (log_eq_of_andThen_of_ok hres h)
      | succ skipped =>
          rw [List.drop_succ_cons] at h
          -- the first step is not run, so it may not log anything
          have hstep : step.info.enabled = false := by
            rw [next_cons, ← idle_andThen memory
              (WorkflowNode.next (runners E (steps.drop skipped)) path rest _)] at h
            have hlater : ∀ memory, WithinFrom path (idx + 1) (WorkflowNode.next
                (runners E (steps.drop skipped)) path rest (idx + (skipped + 1)) memory).log := by
              intro memory
              exact (withinFrom_steps (steps.drop skipped) path rest _ memory).mono (by omega)
            have hlog := log_eq_of_andThen (Within.nil (path ++ [idx]))
              (step.within_internalRun _ _ _) hlater (withinFrom_steps steps path [] (idx + 1)) h
            exact enabled_eq_false_of_log hlog.symm
          refine ⟨hstep, ?_⟩
          rw [next_cons_of_not_enabled hstep] at h
          apply ih hsteps.2
          rw [← h]
          congr 2
          omega

theorem followsExactly_workflow (info : NodeInfo) {steps : List Node}
    (hsteps : ∀ step ∈ steps, step.FollowsExactly E) : (workflow info steps).FollowsExactly E := by
  intro path fromPath memory
  cases henabled : info.enabled with
  | false =>
      have hinfo : (workflow info steps).info.enabled = false := henabled
      rw [internalRun_of_not_enabled hinfo, internalRun_of_not_enabled hinfo]
      constructor
      · exact fun _ => rfl
      · intro _ htrue
        exact absurd (henabled.symm.trans htrue) Bool.false_ne_true
  | true =>
      cases fromPath with
      | nil => exact ⟨fun _ => rfl, fun _ _ => trivial⟩
      | cons skipped rest =>
          have hresumed : WorkflowNode.run (runners E steps) path (skipped :: rest) memory =
              (WorkflowNode.next (runners E (steps.drop skipped)) path rest (0 + skipped)
                memory).ended := by
            rw [WorkflowNode.run, drop_runners, Nat.zero_add]
          constructor
          · intro hfollows
            have hsame := next_eq_of_followsSteps hsteps (hfollows henabled)
            rw [internalRun, NodeInfo.internalRun, NodeInfo.internalRun, hresumed, hsame]
            rfl
          · intro hlog hinfo
            have hrun := NodeInfo.log_eq_of_internalRun henabled
              (withinFrom_workflow (fun step _ => step.within_internalRun) path _ memory)
              (withinFrom_workflow (fun step _ => step.within_internalRun) path _ memory) hlog
            rw [hresumed] at hrun
            exact followsSteps_of_log_eq hsteps hrun.1

/-- What a branch of a resumed node runs. -/
theorem run_ifThenElse_cons (predicate : Option JsValue) (thenNode : Node) (elseNode : Option Node)
    (path rest : List Nat) (head : Nat) (memory : Memory) :
    IfThenElseNode.run E predicate (thenNode.internalRun E) (runner E elseNode) path (head :: rest)
        memory =
      (if head = 0 then thenNode.internalRun E (path ++ [0]) rest memory
        else elseNode.elim (idle memory) fun node =>
          node.internalRun E (path ++ [1]) rest memory).ended := by
  cases head with
  | zero => exact IfThenElseNode.run_of_pass rfl
  | succ head =>
      rw [IfThenElseNode.run_of_not_pass rfl]
      cases elseNode <;> rfl

theorem run_ifThenElse_nil {predicate : Option JsValue} {memory : Memory} {pass : Bool}
    (h : passes E predicate memory = some pass) (thenNode : Node) (elseNode : Option Node)
    (path : List Nat) :
    IfThenElseNode.run E predicate (thenNode.internalRun E) (runner E elseNode) path [] memory =
      (if pass then thenNode.internalRun E (path ++ [0]) [] memory
        else elseNode.elim (idle memory) fun node =>
          node.internalRun E (path ++ [1]) [] memory).ended := by
  cases pass with
  | true => exact IfThenElseNode.run_of_pass h
  | false =>
      have hpass : IfThenElseNode.pass E predicate memory [] = some false := h
      rw [IfThenElseNode.run_of_not_pass hpass]
      cases elseNode <;> rfl

theorem elim_of_not_enabled {elseNode : Option Node}
    (h : ∀ node ∈ elseNode, node.info.enabled = false) (path fromPath : List Nat)
    (memory : Memory) :
    (elseNode.elim (idle memory) fun node => node.internalRun E path fromPath memory) =
      idle memory := by
  cases elseNode with
  | none => rfl
  | some node => exact internalRun_of_not_enabled (h node rfl) path fromPath memory

theorem not_enabled_of_elim_log {elseNode : Option Node} {path fromPath : List Nat}
    {memory : Memory}
    (h : (elseNode.elim (idle memory) fun node =>
      node.internalRun E path fromPath memory).log = []) :
    ∀ node ∈ elseNode, node.info.enabled = false := by
  intro node hnode
  cases hnode
  exact enabled_eq_false_of_log h

theorem within_elim (elseNode : Option Node) (path fromPath : List Nat) (memory : Memory) :
    Within path (elseNode.elim (idle memory) fun node =>
      node.internalRun E path fromPath memory).log := by
  cases elseNode with
  | none => exact Within.nil path
  | some node => exact node.within_internalRun path fromPath memory

/-- Two logs about different children are the same only if there are none. -/
theorem nil_of_log_eq {path : List Nat} {child child' : Nat} {log log' : List LogItem}
    (hlog : Within (path ++ [child]) log) (hlog' : Within (path ++ [child']) log')
    (hchild : child ≠ child') (h : log = log') : log = [] := by
  cases hitems : log with
  | nil => rfl
  | cons item rest =>
      have hmem : item ∈ log := hitems ▸ List.mem_cons_self
      have hpath := hlog item hmem
      have hpath' := hlog' item (h ▸ hmem)
      have hsame : path ++ [child] = path ++ [child'] :=
        (List.prefix_of_prefix_length_le hpath hpath' (by simp)).eq_of_length (by simp)
      exact absurd (List.singleton_inj.mp (List.append_cancel_left hsame)) hchild

theorem followsExactly_ifThenElse (info : NodeInfo) (predicate : Option JsValue) {thenNode : Node}
    {elseNode : Option Node} (hthen : thenNode.FollowsExactly E)
    (helse : ∀ node ∈ elseNode, node.FollowsExactly E) :
    (ifThenElse info predicate thenNode elseNode).FollowsExactly E := by
  intro path fromPath memory
  cases henabled : info.enabled with
  | false =>
      have hinfo : (ifThenElse info predicate thenNode elseNode).info.enabled = false := henabled
      rw [internalRun_of_not_enabled hinfo, internalRun_of_not_enabled hinfo]
      constructor
      · exact fun _ => rfl
      · intro _ htrue
        exact absurd (henabled.symm.trans htrue) Bool.false_ne_true
  | true =>
      cases fromPath with
      | nil => exact ⟨fun _ => rfl, fun _ _ => trivial⟩
      | cons head rest =>
          constructor
          · intro hfollows
            obtain ⟨pass, hpass, hbranch⟩ := hfollows henabled
            have hrun : IfThenElseNode.run E predicate (thenNode.internalRun E)
                (runner E elseNode) path (head :: rest) memory =
                IfThenElseNode.run E predicate (thenNode.internalRun E) (runner E elseNode) path []
                  memory := by
              rw [run_ifThenElse_cons, run_ifThenElse_nil hpass]
              congr 1
              by_cases hsame : pass = (head == 0)
              · rw [if_pos hsame] at hbranch
                cases pass with
                | true =>
                    rw [if_pos (beq_iff_eq.mp hsame.symm)]
                    exact (hthen (path ++ [0]) rest memory).1 hbranch
                | false =>
                    rw [if_neg (beq_eq_false_iff_ne.mp hsame.symm)]
                    cases elseNode with
                    | none => rfl
                    | some node => exact (helse node rfl (path ++ [1]) rest memory).1 hbranch
              · rw [if_neg hsame] at hbranch
                rw [internalRun_of_not_enabled hbranch.1, internalRun_of_not_enabled hbranch.1,
                  elim_of_not_enabled hbranch.2, elim_of_not_enabled hbranch.2, ite_self, ite_self]
            rw [internalRun, NodeInfo.internalRun, NodeInfo.internalRun, hrun]
          · intro hlog _
            have hwithin := withinFrom_ifThenElse (E := E) predicate
              thenNode.within_internalRun (fun node (_ : node ∈ elseNode) =>
                node.within_internalRun) path
            obtain ⟨hrun, hfinish⟩ := NodeInfo.log_eq_of_internalRun henabled
              (hwithin (head :: rest) memory) (hwithin [] memory) hlog
            cases hpass : passes E predicate memory with
            | none =>
                have hthrown : IfThenElseNode.pass E predicate memory [] = none := hpass
                rw [run_ifThenElse_cons, IfThenElseNode.run_of_thrown hthrown] at hfinish
                exact absurd hfinish (NodeInfo.finish_log_ne_thrown path _ _ (Ran.ended_ne_thrown _))
            | some pass =>
                refine ⟨pass, rfl, ?_⟩
                rw [run_ifThenElse_cons, run_ifThenElse_nil hpass] at hrun
                have hthenLog := thenNode.within_internalRun (E := E) (path ++ [0])
                have helseLog := within_elim (E := E) elseNode (path ++ [1])
                by_cases hhead : head = 0
                · subst hhead
                  rw [if_pos rfl] at hrun
                  cases pass with
                  | true => exact (hthen (path ++ [0]) rest memory).2 hrun
                  | false =>
                      have hnil := nil_of_log_eq (hthenLog rest memory) (helseLog [] memory)
                        Nat.zero_ne_one hrun
                      exact ⟨enabled_eq_false_of_log hnil,
                        not_enabled_of_elim_log (hrun.symm.trans hnil)⟩
                · rw [if_neg hhead] at hrun
                  have hbeq : (head == 0) = false := beq_eq_false_iff_ne.mpr hhead
                  rw [hbeq]
                  cases pass with
                  | true =>
                      have hnil := nil_of_log_eq (hthenLog [] memory) (helseLog rest memory)
                        Nat.zero_ne_one hrun.symm
                      exact ⟨enabled_eq_false_of_log hnil,
                        not_enabled_of_elim_log (hrun.trans hnil)⟩
                  | false =>
                      rw [if_pos rfl]
                      cases elseNode with
                      | none => trivial
                      | some node => exact (helse node rfl (path ++ [1]) rest memory).2 hrun

/-- A node that does its work only without a remainder. -/
theorem followsExactly_of_refuses {info : NodeInfo} {run : List Nat → List Nat → Memory → Ran Ended}
    {path fromPath : List Nat} {memory : Memory}
    (hrefuses : ∀ head rest, (run path (head :: rest) memory).log = [] ∧
      ∃ err, (run path (head :: rest) memory).result = .left err)
    (hruns : (run path [] memory).log = [⟨path, .running⟩]) :
    ((info.enabled = true → fromPath = []) →
      info.internalRun E run path fromPath memory = info.internalRun E run path [] memory) ∧
    ((info.internalRun E run path fromPath memory).log =
        (info.internalRun E run path [] memory).log → info.enabled = true → fromPath = []) := by
  constructor
  · intro hfollows
    cases henabled : info.enabled with
    | false =>
        rw [NodeInfo.internalRun_of_not_enabled henabled,
          NodeInfo.internalRun_of_not_enabled henabled]
    | true => rw [hfollows henabled]
  · intro hlog henabled
    cases fromPath with
    | nil => rfl
    | cons head rest =>
        obtain ⟨hnil, err, herr⟩ := hrefuses head rest
        rw [NodeInfo.internalRun_log henabled, NodeInfo.internalRun_log henabled, hnil, hruns,
          herr] at hlog
        exact absurd (List.cons.inj hlog).2 (NodeInfo.finish_log_ne_running path _ _ _)

theorem followsExactly (node : Node) : node.FollowsExactly E := by
  induction node using Node.induction with
  | workflow info steps ih => exact followsExactly_workflow info ih
  | ifThenElse info predicate thenNode elseNode ihthen ihelse =>
      exact followsExactly_ifThenElse info predicate ihthen ihelse
  | assign info values =>
      intro path fromPath memory
      exact followsExactly_of_refuses (fun _ _ => ⟨rfl, _, rfl⟩) rfl
  | value info json =>
      intro path fromPath memory
      exact ⟨fun _ => rfl, fun _ => trivial⟩
  | call info functionName args async =>
      intro path fromPath memory
      exact followsExactly_of_refuses (fun _ _ => ⟨rfl, _, rfl⟩) rfl
  | pause info =>
      intro path fromPath memory
      exact ⟨fun _ => rfl, fun _ => trivial⟩
  | jump info predicate toId toPath =>
      intro path fromPath memory
      exact ⟨fun _ => rfl, fun _ => trivial⟩

end Node

end Workflows

end Otoroshi
