/-
# Logs of workflows

A node logs about itself and the nodes below it, and a sequence about one step after the
other. So the log of a run tells what every node has logged, and two runs that have the same
log did the same thing node by node.
-/

import Otoroshi.Workflows.Nodes

namespace Otoroshi

namespace Workflows

variable {E : WorkflowEnv}

/-- Two lists with the same beginning and end, of which exactly the beginning has a property,
are the same in both parts. -/
theorem append_inj_of_forall {α : Type} {p : α → Prop} {first first' rest rest' : List α}
    (hfirst : ∀ item ∈ first, p item) (hfirst' : ∀ item ∈ first', p item)
    (hrest : ∀ item ∈ rest, ¬ p item) (hrest' : ∀ item ∈ rest', ¬ p item)
    (h : first ++ rest = first' ++ rest') : first = first' ∧ rest = rest' := by
  induction first generalizing first' with
  | nil =>
      cases first' with
      | nil => exact ⟨rfl, h⟩
      | cons item first' =>
          rw [List.nil_append] at h
          rw [h] at hrest
          exact absurd (hfirst' item List.mem_cons_self) (hrest item List.mem_cons_self)
  | cons item first ih =>
      cases first' with
      | nil =>
          rw [List.nil_append] at h
          rw [← h] at hrest'
          exact absurd (hfirst item List.mem_cons_self) (hrest' item List.mem_cons_self)
      | cons item' first' =>
          obtain ⟨rfl, htail⟩ := List.cons.inj h
          rw [List.forall_mem_cons] at hfirst hfirst'
          obtain ⟨rfl, hrest⟩ := ih hfirst.2 hfirst'.2 htail
          exact ⟨rfl, hrest⟩

/-- The log is about the node at the position and the nodes below it. -/
def Within (path : List Nat) (log : List LogItem) : Prop := ∀ item ∈ log, path <+: item.path

/-- The log is about the children at the position, from one of them on. -/
def WithinFrom (path : List Nat) (idx : Nat) (log : List LogItem) : Prop :=
  ∀ item ∈ log, ∃ child, idx ≤ child ∧ path ++ [child] <+: item.path

theorem Within.nil (path : List Nat) : Within path [] := List.forall_mem_nil _

theorem Within.withinFrom {path : List Nat} {idx child : Nat} {log : List LogItem}
    (h : Within (path ++ [child]) log) (hidx : idx ≤ child) : WithinFrom path idx log := by
  intro item hitem
  exact ⟨child, hidx, h item hitem⟩

theorem WithinFrom.mono {path : List Nat} {idx idx' : Nat} {log : List LogItem}
    (h : WithinFrom path idx log) (hidx : idx' ≤ idx) : WithinFrom path idx' log := by
  intro item hitem
  obtain ⟨child, hchild, hpath⟩ := h item hitem
  exact ⟨child, hidx.trans hchild, hpath⟩

theorem WithinFrom.append {path : List Nat} {idx : Nat} {log log' : List LogItem}
    (h : WithinFrom path idx log) (h' : WithinFrom path idx log') :
    WithinFrom path idx (log ++ log') := by
  intro item hitem
  cases List.mem_append.mp hitem with
  | inl hfirst => exact h item hfirst
  | inr hsecond => exact h' item hsecond

theorem WithinFrom.within {path : List Nat} {idx : Nat} {log : List LogItem}
    (h : WithinFrom path idx log) : Within path log := by
  intro item hitem
  obtain ⟨child, -, hpath⟩ := h item hitem
  exact (List.prefix_append path [child]).trans hpath

/-- What is logged about the children is not about the node itself. -/
theorem WithinFrom.ne {path : List Nat} {idx : Nat} {log : List LogItem}
    (h : WithinFrom path idx log) : ∀ item ∈ log, item.path ≠ path := by
  intro item hitem heq
  obtain ⟨child, -, hpath⟩ := h item hitem
  have hlength := hpath.length_le
  rw [heq, List.length_append, List.length_singleton] at hlength
  omega

/-- What is logged about later children is not about an earlier one. -/
theorem WithinFrom.not_within {path : List Nat} {idx child : Nat} {log : List LogItem}
    (h : WithinFrom path idx log) (hchild : child < idx) :
    ∀ item ∈ log, ¬ path ++ [child] <+: item.path := by
  intro item hitem hpath
  obtain ⟨later, hlater, hother⟩ := h item hitem
  have hsame : path ++ [child] = path ++ [later] :=
    (List.prefix_of_prefix_length_le hpath hother (by simp)).eq_of_length (by simp)
  have : child = later := List.singleton_inj.mp (List.append_cancel_left hsame)
  omega

theorem Ran.andThen_of_error {ran : Ran (Except WorkflowError JsValue)} {err : WorkflowError}
    (h : ran.result = .error err) (next : Memory → Ran (Except WorkflowError JsValue)) :
    ran.andThen next = ran := by
  cases ran
  cases h
  rfl

theorem Ran.andThen_of_ok {ran : Ran (Except WorkflowError JsValue)} {res : JsValue}
    (h : ran.result = .ok res) (next : Memory → Ran (Except WorkflowError JsValue)) :
    ran.andThen next = ⟨(next ran.memory).result, (next ran.memory).memory,
      ran.log ++ (next ran.memory).log⟩ := by
  rw [Ran.andThen, h]

/-- A node that has run another one does not throw. -/
theorem Ran.ended_ne_thrown (ran : Ran (Except WorkflowError JsValue)) :
    ran.ended.result ≠ .thrown := by
  cases hresult : ran.result <;> rw [Ran.ended, hresult] <;> nofun

theorem idle_andThen (memory : Memory) (next : Memory → Ran (Except WorkflowError JsValue)) :
    (idle memory).andThen next = next memory := rfl

/-- A run that goes on logs what it has logged so far, and then more. -/
theorem WithinFrom.andThen {path : List Nat} {idx : Nat}
    {ran : Ran (Except WorkflowError JsValue)}
    {next : Memory → Ran (Except WorkflowError JsValue)} (h : WithinFrom path idx ran.log)
    (hnext : ∀ memory, WithinFrom path idx (next memory).log) :
    WithinFrom path idx (ran.andThen next).log := by
  cases hresult : ran.result with
  | error err =>
      rw [Ran.andThen_of_error hresult]
      exact h
  | ok res =>
      rw [Ran.andThen_of_ok hresult]
      exact h.append (hnext ran.memory)

theorem withinFrom_next {runners : List Runner}
    (h : ∀ runner ∈ runners, ∀ path fromPath memory, Within path (runner path fromPath memory).log)
    (path fromPath : List Nat) (idx : Nat) (memory : Memory) :
    WithinFrom path idx (WorkflowNode.next runners path fromPath idx memory).log := by
  induction runners generalizing idx memory with
  | nil => exact List.forall_mem_nil _
  | cons head tail ih =>
      rw [List.forall_mem_cons] at h
      have hhead : WithinFrom path idx (head (path ++ [idx]) fromPath memory).log :=
        (h.1 (path ++ [idx]) fromPath memory).withinFrom le_rfl
      exact hhead.andThen fun memory => (ih h.2 (idx + 1) memory).mono (Nat.le_succ idx)

namespace NodeInfo

variable {info : NodeInfo}

theorem internalRun_of_not_enabled (h : info.enabled = false)
    (run : List Nat → List Nat → Memory → Ran Ended) (path fromPath : List Nat) (memory : Memory) :
    info.internalRun E run path fromPath memory = idle memory := by
  rw [internalRun, h]
  rfl

/-- At its end a node only logs about itself. -/
theorem finish_log (path : List Nat) (memory : Memory) (ended : Ended) :
    ∀ item ∈ (info.finish E path memory ended).log, item.path = path := by
  have hone : ∀ message, ∀ item ∈ ([⟨path, message⟩] : List LogItem), item.path = path := by
    simp
  have htwo : ∀ message message', ∀ item ∈ ([⟨path, message⟩, ⟨path, message'⟩] : List LogItem),
      item.path = path := by
    simp
  cases ended with
  | left err =>
      rw [finish]
      split
      · split
        · exact htwo _ _
        · exact hone _
      · split <;> exact hone _
  | right res =>
      rw [finish]
      split
      · exact hone _
      · split
        · exact htwo _ _
        · exact hone _
  | failed => exact hone _
  | thrown => exact hone _

/-- The first thing that is logged at the end of a node. -/
theorem exists_finish_log_eq (path : List Nat) (memory : Memory) (ended : Ended) :
    ∃ message rest, (info.finish E path memory ended).log = ⟨path, message⟩ :: rest ∧
      message ≠ .running ∧ (ended ≠ .thrown → message ≠ .endingWithSyncException) := by
  have hfirst : ∀ message, message ≠ LogMessage.running →
      message ≠ LogMessage.endingWithSyncException → ∀ rest : List LogItem,
        ∃ first items, (⟨path, message⟩ :: rest : List LogItem) = ⟨path, first⟩ :: items ∧
          first ≠ .running ∧ (ended ≠ .thrown → first ≠ .endingWithSyncException) := by
    intro message hrunning hthrown rest
    exact ⟨message, rest, rfl, hrunning, fun _ => hthrown⟩
  cases ended with
  | left err =>
      rw [finish]
      split
      · split <;> exact hfirst _ (by decide) (by decide) _
      · split <;> exact hfirst _ (by decide) (by decide) _
  | right res =>
      rw [finish]
      split
      · exact hfirst _ (by decide) (by decide) _
      · split <;> exact hfirst _ (by decide) (by decide) _
  | failed => exact hfirst _ (by decide) (by decide) _
  | thrown => exact ⟨_, _, rfl, by decide, fun h => absurd rfl h⟩

theorem internalRun_of_enabled (h : info.enabled = true)
    (run : List Nat → List Nat → Memory → Ran Ended) (path fromPath : List Nat) (memory : Memory) :
    info.internalRun E run path fromPath memory =
      ⟨(info.finish E path (run path fromPath memory).memory
          (run path fromPath memory).result).result,
        (info.finish E path (run path fromPath memory).memory
          (run path fromPath memory).result).memory,
        ⟨path, .starting⟩ :: ((run path fromPath memory).log ++
          (info.finish E path (run path fromPath memory).memory
            (run path fromPath memory).result).log)⟩ := by
  rw [internalRun, if_pos h]

theorem internalRun_log (h : info.enabled = true)
    (run : List Nat → List Nat → Memory → Ran Ended) (path fromPath : List Nat) (memory : Memory) :
    (info.internalRun E run path fromPath memory).log =
      ⟨path, .starting⟩ :: ((run path fromPath memory).log ++
        (info.finish E path (run path fromPath memory).memory
          (run path fromPath memory).result).log) := by
  rw [internalRun_of_enabled h]

theorem within_internalRun {run : List Nat → List Nat → Memory → Ran Ended}
    {path fromPath : List Nat} {memory : Memory} (h : Within path (run path fromPath memory).log) :
    Within path (info.internalRun E run path fromPath memory).log := by
  cases henabled : info.enabled with
  | false =>
      rw [internalRun_of_not_enabled henabled]
      exact Within.nil path
  | true =>
      rw [internalRun_log henabled]
      intro item hitem
      rw [List.mem_cons, List.mem_append] at hitem
      obtain rfl | hrun | hfinish := hitem
      · exact List.prefix_rfl
      · exact h item hrun
      · rw [finish_log path _ _ item hfinish]

/-- Runs of a node that only differ in what the children do are told apart by what the
children log. -/
theorem log_eq_of_internalRun {run run' : List Nat → List Nat → Memory → Ran Ended}
    {path fromPath fromPath' : List Nat} {memory : Memory} {idx idx' : Nat}
    (henabled : info.enabled = true)
    (hrun : WithinFrom path idx (run path fromPath memory).log)
    (hrun' : WithinFrom path idx' (run' path fromPath' memory).log)
    (h : (info.internalRun E run path fromPath memory).log =
      (info.internalRun E run' path fromPath' memory).log) :
    (run path fromPath memory).log = (run' path fromPath' memory).log ∧
      (info.finish E path (run path fromPath memory).memory
        (run path fromPath memory).result).log =
      (info.finish E path (run' path fromPath' memory).memory
        (run' path fromPath' memory).result).log := by
  rw [internalRun_log henabled, internalRun_log henabled] at h
  have hfinish : ∀ memory ended, ∀ item ∈ (info.finish E path memory ended).log,
      ¬ item.path ≠ path := by
    intro memory ended item hitem hne
    exact hne (finish_log path memory ended item hitem)
  exact append_inj_of_forall hrun.ne hrun'.ne (hfinish _ _) (hfinish _ _) (List.cons.inj h).2

/-- Only a node that throws logs so. -/
theorem finish_log_ne_thrown (path : List Nat) (memory memory' : Memory) {ended : Ended}
    (h : ended ≠ .thrown) :
    (info.finish E path memory ended).log ≠ (info.finish E path memory' .thrown).log := by
  obtain ⟨message, rest, hlog, -, hmessage⟩ := exists_finish_log_eq (E := E) path
    memory ended
  intro heq
  rw [hlog] at heq
  exact hmessage h (congrArg LogItem.message (List.cons.inj heq).1)

/-- A node that ends does not run again. -/
theorem finish_log_ne_running (path : List Nat) (memory : Memory) (ended : Ended)
    (rest : List LogItem) :
    (info.finish E path memory ended).log ≠ ⟨path, .running⟩ :: rest := by
  obtain ⟨message, items, hlog, hmessage, -⟩ := exists_finish_log_eq (E := E) path
    memory ended
  intro heq
  rw [hlog] at heq
  exact hmessage (congrArg LogItem.message (List.cons.inj heq).1)

end NodeInfo

namespace Node

theorem withinFrom_next_runners {steps : List Node} {fromPath : List Nat}
    (h : ∀ step ∈ steps, ∀ path fromPath memory,
      Within path (step.internalRun E path fromPath memory).log)
    (path : List Nat) (idx : Nat) (memory : Memory) :
    WithinFrom path idx (WorkflowNode.next (runners E steps) path fromPath idx memory).log := by
  apply withinFrom_next
  intro runner hrunner
  rw [runners_eq_map] at hrunner
  obtain ⟨step, hstep, rfl⟩ := List.mem_map.mp hrunner
  exact h step hstep

theorem drop_runners (steps : List Node) (idx : Nat) :
    (runners E steps).drop idx = runners E (steps.drop idx) := by
  rw [runners_eq_map, runners_eq_map, List.map_drop]

theorem within_one (path : List Nat) (message : LogMessage) : Within path [⟨path, message⟩] := by
  intro item hitem
  rw [List.mem_singleton.mp hitem]

theorem withinFrom_workflow {steps : List Node}
    (h : ∀ step ∈ steps, ∀ path fromPath memory,
      Within path (step.internalRun E path fromPath memory).log)
    (path fromPath : List Nat) (memory : Memory) :
    WithinFrom path 0 (WorkflowNode.run (runners E steps) path fromPath memory).log := by
  cases fromPath with
  | nil => exact withinFrom_next_runners h path 0 memory
  | cons head rest =>
      rw [WorkflowNode.run, drop_runners]
      have hdrop : ∀ step ∈ steps.drop head, ∀ path fromPath memory,
          Within path (step.internalRun E path fromPath memory).log :=
        fun step hstep => h step (List.mem_of_mem_drop hstep)
      exact (withinFrom_next_runners hdrop path head memory).mono (Nat.zero_le head)

theorem withinFrom_ifThenElse (predicate : Option JsValue) {thenNode : Node}
    {elseNode : Option Node}
    (hthen : ∀ path fromPath memory, Within path (thenNode.internalRun E path fromPath memory).log)
    (helse : ∀ node ∈ elseNode, ∀ path fromPath memory,
      Within path (node.internalRun E path fromPath memory).log)
    (path fromPath : List Nat) (memory : Memory) :
    WithinFrom path 0 (IfThenElseNode.run E predicate (thenNode.internalRun E)
      (runner E elseNode) path fromPath memory).log := by
  cases hpass : IfThenElseNode.pass E predicate memory fromPath with
  | none =>
      rw [IfThenElseNode.run_of_thrown hpass]
      exact List.forall_mem_nil _
  | some pass =>
      cases pass with
      | true =>
          rw [IfThenElseNode.run_of_pass hpass]
          exact (hthen (path ++ [0]) fromPath.tail memory).withinFrom (Nat.zero_le 0)
      | false =>
          rw [IfThenElseNode.run_of_not_pass hpass]
          cases elseNode with
          | none => exact List.forall_mem_nil _
          | some node =>
              exact (helse node rfl (path ++ [1]) fromPath.tail memory).withinFrom (Nat.zero_le 1)

/-- A node logs about itself and the nodes below it. -/
theorem within_internalRun (node : Node) (path fromPath : List Nat) (memory : Memory) :
    Within path (node.internalRun E path fromPath memory).log := by
  induction node using Node.induction generalizing path fromPath memory with
  | workflow info steps ih =>
      have hsteps : ∀ step ∈ steps, ∀ path fromPath memory,
          Within path (step.internalRun E path fromPath memory).log :=
        fun step hstep path fromPath memory => ih step hstep path fromPath memory
      exact NodeInfo.within_internalRun (withinFrom_workflow hsteps path fromPath memory).within
  | ifThenElse info predicate thenNode elseNode ihthen ihelse =>
      have helse : ∀ node ∈ elseNode, ∀ path fromPath memory,
          Within path (node.internalRun E path fromPath memory).log :=
        fun node hnode path fromPath memory => ihelse node hnode path fromPath memory
      exact NodeInfo.within_internalRun
        (withinFrom_ifThenElse predicate ihthen helse path fromPath memory).within
  | assign info values =>
      apply NodeInfo.within_internalRun
      cases fromPath with
      | nil => exact within_one path .running
      | cons head rest => exact Within.nil path
  | value info json =>
      apply NodeInfo.within_internalRun
      rw [ValueNode.run]
      split <;> exact within_one path .running
  | call info functionName args async =>
      apply NodeInfo.within_internalRun
      cases fromPath with
      | nil => exact within_one path .running
      | cons head rest => exact Within.nil path
  | pause info => exact NodeInfo.within_internalRun (within_one path _)
  | jump info predicate toId toPath => exact NodeInfo.within_internalRun (Within.nil path)

/-- Every kind of node is run in the same frame. -/
theorem exists_internalRun_eq (node : Node) :
    ∃ run, node.internalRun E = node.info.internalRun E run := by
  cases node <;> exact ⟨_, rfl⟩

theorem internalRun_of_not_enabled {node : Node} (h : node.info.enabled = false)
    (path fromPath : List Nat) (memory : Memory) :
    node.internalRun E path fromPath memory = idle memory := by
  obtain ⟨run, hrun⟩ := exists_internalRun_eq (E := E) node
  rw [hrun, NodeInfo.internalRun_of_not_enabled h]

/-- A node that is enabled is started. -/
theorem internalRun_log_ne_nil {node : Node} (h : node.info.enabled = true)
    (path fromPath : List Nat) (memory : Memory) :
    (node.internalRun E path fromPath memory).log ≠ [] := by
  obtain ⟨run, hrun⟩ := exists_internalRun_eq (E := E) node
  rw [hrun, NodeInfo.internalRun_log h]
  exact List.cons_ne_nil _ _

theorem enabled_eq_false_of_log {node : Node} {path fromPath : List Nat} {memory : Memory}
    (h : (node.internalRun E path fromPath memory).log = []) : node.info.enabled = false := by
  cases henabled : node.info.enabled with
  | false => rfl
  | true => exact absurd h (internalRun_log_ne_nil henabled path fromPath memory)

theorem withinFrom_steps (steps : List Node) (path fromPath : List Nat) (idx : Nat)
    (memory : Memory) :
    WithinFrom path idx (WorkflowNode.next (runners E steps) path fromPath idx memory).log :=
  withinFrom_next_runners (fun step _ => step.within_internalRun) path idx memory

/-- Two runs of a step, each with what comes after it, are told apart by their logs. -/
theorem log_eq_of_andThen {path : List Nat} {idx : Nat}
    {ran ran' : Ran (Except WorkflowError JsValue)}
    {next next' : Memory → Ran (Except WorkflowError JsValue)}
    (hran : Within (path ++ [idx]) ran.log) (hran' : Within (path ++ [idx]) ran'.log)
    (hnext : ∀ memory, WithinFrom path (idx + 1) (next memory).log)
    (hnext' : ∀ memory, WithinFrom path (idx + 1) (next' memory).log)
    (h : (ran.andThen next).log = (ran'.andThen next').log) : ran.log = ran'.log := by
  have hsplit : ∀ (ran : Ran (Except WorkflowError JsValue)) next,
      (∀ memory, WithinFrom path (idx + 1) (next memory).log) →
        ∃ rest, (ran.andThen next).log = ran.log ++ rest ∧ WithinFrom path (idx + 1) rest := by
    intro ran next hnext
    cases hresult : ran.result with
    | error err =>
        rw [Ran.andThen_of_error hresult]
        exact ⟨[], (List.append_nil _).symm, List.forall_mem_nil _⟩
    | ok res =>
        rw [Ran.andThen_of_ok hresult]
        exact ⟨_, rfl, hnext ran.memory⟩
  obtain ⟨rest, heq, hrest⟩ := hsplit ran next hnext
  obtain ⟨rest', heq', hrest'⟩ := hsplit ran' next' hnext'
  rw [heq, heq'] at h
  have hlt := Nat.lt_succ_self idx
  exact (append_inj_of_forall hran hran' (hrest.not_within hlt) (hrest'.not_within hlt) h).1

/-- The same for what comes after the same run. -/
theorem log_eq_of_andThen_of_ok {ran : Ran (Except WorkflowError JsValue)} {res : JsValue}
    {next next' : Memory → Ran (Except WorkflowError JsValue)} (hres : ran.result = .ok res)
    (h : (ran.andThen next).log = (ran.andThen next').log) :
    (next ran.memory).log = (next' ran.memory).log := by
  rw [Ran.andThen_of_ok hres, Ran.andThen_of_ok hres] at h
  exact List.append_cancel_left h

theorem andThen_congr {ran : Ran (Except WorkflowError JsValue)}
    {next next' : Memory → Ran (Except WorkflowError JsValue)}
    (h : ∀ res, ran.result = .ok res → next ran.memory = next' ran.memory) :
    ran.andThen next = ran.andThen next' := by
  cases hresult : ran.result with
  | error err => rw [Ran.andThen_of_error hresult, Ran.andThen_of_error hresult]
  | ok res => rw [Ran.andThen_of_ok hresult, Ran.andThen_of_ok hresult, h res hresult]

end Node

end Workflows

end Otoroshi
