/-
# The names of loops and calls

A loop has the item of a turn in memory under `foreach_value` (and its key under
`foreach_key`) while its body is run, and a call of a function of the workflow the arguments,
under `function_args`. The memory is flat: the names are set before the body and removed after
it, whatever they were before.

A run is looked at through its events: which nodes were executed, in which memory, and in which
scope, the names that the loops and calls around them are there for. `inScope_iff_fresh` says
when every node sees its scope.
-/

import Otoroshi.Workflows.Collections

namespace Otoroshi

namespace Workflows

def functionArgs : Str := "function_args".toList

def scopedNames : List Str := [foreachKey, foreachValue, functionArgs]

/-- The two have the same under the names of loops and calls. -/
def Agree (scope memory : Memory) : Prop := ∀ name ∈ scopedNames, memory name = scope name

theorem Agree.refl (memory : Memory) : Agree memory memory := fun _ _ => rfl

theorem Agree.symm {first second : Memory} (h : Agree first second) : Agree second first :=
  fun name hname => (h name hname).symm

theorem Agree.trans {first second third : Memory} (h : Agree first second)
    (h' : Agree second third) : Agree first third := fun name hname =>
  (h' name hname).trans (h name hname)

theorem agree_set {name : Str} (hname : name ∉ scopedNames) (memory : Memory) (value : JsValue) :
    Agree memory (memory.set name value) := by
  intro other hother
  have hne : other ≠ name := by
    rintro rfl
    exact hname hother
  exact Function.update_of_ne hne ..

/-- What a loop or a call puts in memory for a turn, and takes from it after the turn. -/
structure Binding (Item : Type) where
  names : List Str
  enter : Item → Memory → Memory
  leave : Memory → Memory
  names_scoped : ∀ name ∈ names, name ∈ scopedNames
  enter_of_mem : ∀ item, ∀ name ∈ names, ∃ value, ∀ memory, enter item memory name = some value
  enter_of_notMem : ∀ item memory, ∀ name ∉ names, enter item memory name = memory name
  leave_of_mem : ∀ memory, ∀ name ∈ names, leave memory name = none
  leave_of_notMem : ∀ memory, ∀ name ∉ names, leave memory name = memory name

/-- The binding of one name. -/
def nameBinding (bound : Str) (hbound : bound ∈ scopedNames) : Binding JsValue where
  names := [bound]
  enter item memory := memory.set bound item
  leave memory := memory.remove bound
  names_scoped _ hname := List.mem_singleton.mp hname ▸ hbound
  enter_of_mem item _ hname :=
    ⟨item, fun _ => List.mem_singleton.mp hname ▸ Function.update_self ..⟩
  enter_of_notMem _ _ _ hname := Function.update_of_ne (List.ne_of_not_mem_cons hname) ..
  leave_of_mem _ _ hname := List.mem_singleton.mp hname ▸ Function.update_self ..
  leave_of_notMem _ _ hname := Function.update_of_ne (List.ne_of_not_mem_cons hname) ..

def itemBinding : Binding JsValue := nameBinding foreachValue (by decide)

def argsBinding : Binding JsValue := nameBinding functionArgs (by decide)

theorem foreachKey_ne_foreachValue : foreachKey ≠ foreachValue := by decide

/-- The binding of a field of an object. -/
def fieldBinding : Binding (Str × JsValue) where
  names := [foreachKey, foreachValue]
  enter field memory := (memory.set foreachKey (.string field.1)).set foreachValue field.2
  leave memory := (memory.remove foreachKey).remove foreachValue
  names_scoped := by decide
  enter_of_mem field name hname := by
    rcases List.mem_pair.mp hname with rfl | rfl
    · exact ⟨.string field.1, fun _ => (Function.update_of_ne foreachKey_ne_foreachValue ..).trans
        (Function.update_self ..)⟩
    · exact ⟨field.2, fun _ => Function.update_self ..⟩
  enter_of_notMem field memory name hname := by
    rw [List.mem_pair, not_or] at hname
    exact (Function.update_of_ne hname.2 ..).trans (Function.update_of_ne hname.1 ..)
  leave_of_mem memory name hname := by
    rcases List.mem_pair.mp hname with rfl | rfl
    · exact (Function.update_of_ne foreachKey_ne_foreachValue ..).trans (Function.update_self ..)
    · exact Function.update_self ..
  leave_of_notMem memory name hname := by
    rw [List.mem_pair, not_or] at hname
    exact (Function.update_of_ne hname.2 ..).trans (Function.update_of_ne hname.1 ..)

/-! ## Trees of loops and calls -/

/-- What a node has, where it does not set a name of a loop or call to its result. -/
structure ScopedInfo extends NodeInfo where
  result_notMem : ∀ name ∈ result, name ∉ scopedNames

/-- What any other node does, which leaves the names of loops and calls to them. -/
structure Action where
  run : List Nat → Memory → Ran Ended
  agree : ∀ path memory, Agree memory (run path memory).memory

/-- Loops, calls, sequences and other nodes. A call has the function that it calls, so that a
function that calls itself is a tree as deep as its calls go. -/
inductive Nested
  | other (info : ScopedInfo) (action : Action)
  | sequence (info : ScopedInfo) (steps : List Nested)
  | loop (info : ScopedInfo) (kind : CollectionKind) (values : Option JsValue)
      (destination : Option {name : Str // name ∉ scopedNames}) (body : Nested)
  | call (info : ScopedInfo) (functionName : Str) (args : JsValue) (async : Bool)
      (function : Nested)

namespace Nested

theorem induction {motive : Nested → Prop} (other : ∀ info action, motive (other info action))
    (sequence : ∀ info steps, (∀ step ∈ steps, motive step) → motive (sequence info steps))
    (loop : ∀ info kind values destination body, motive body →
      motive (loop info kind values destination body))
    (call : ∀ info functionName args async function, motive function →
      motive (call info functionName args async function)) (node : Nested) : motive node := by
  refine @Nested.rec motive (fun steps => ∀ step ∈ steps, motive step) other sequence loop call
    (List.forall_mem_nil _) ?_ node
  intro step steps hstep hsteps
  exact List.forall_mem_cons.mpr ⟨hstep, hsteps⟩

end Nested

/-! ## Runs -/

variable (E : WorkflowEnv) (ahead : Bool)

/-- The item that the stream has started after the one that failed. -/
def leftRunning {Item : Type} (b : Binding Item) (node : Runner) (path : List Nat) :
    List Item → Nat → Memory → Option (Item × Nat)
  | [], _, _ => none
  | item :: items, idx, memory =>
      let ran := node (path ++ [idx]) [] (b.enter item memory)
      match ran.result with
      | .error _ => if ahead then items.head?.map (·, idx + 1) else none
      | .ok _ => leftRunning b node path items (idx + 1) (b.leave ran.memory)

/-- The memories in which a loop may have ended: where it has left an item running, this may
still go on, and it may be over. -/
def loopMemories {Item : Type} (b : Binding Item) (node : Runner) (path : List Nat)
    (left : Option (Item × Nat)) (memory : Memory) : List Memory :=
  match left with
  | none => [memory]
  | some (item, idx) =>
      [b.enter item memory, b.leave (node (path ++ [idx]) [] (b.enter item memory)).memory]

/-- What a node runs its body over. -/
inductive Turns
  | none
  | items (items : List JsValue)
  | fields (fields : List (Str × JsValue))

/-- What a loop runs its body over. Only `foreach` takes objects. -/
def CollectionKind.turns (kind : CollectionKind) (values : Option JsValue) (memory : Memory) :
    Turns :=
  match values.bind fun json => E.processOperators json memory with
  | some (.array items) => .items items
  | some (.object fields) => match kind with
      | .foreach => .fields fields
      | _ => .none
  | _ => .none

/-- The memories in which a loop may have ended, with its array stored. -/
def LoopNode.memories (info : NodeInfo) (kind : CollectionKind) (values : Option JsValue)
    (destination : Option Str) (node : Runner) (path : List Nat) (memory : Memory) :
    List Memory :=
  let ran := kind.run E ahead info values node destination path [] memory
  match kind.turns E values memory with
  | .none => [ran.memory]
  | .items items =>
      loopMemories itemBinding node path
        (leftRunning ahead itemBinding node path items 0 memory) ran.memory
  | .fields fields =>
      loopMemories fieldBinding node path
        (leftRunning ahead fieldBinding node path fields 0 memory) ran.memory

/-- A loop that leaves an item running goes on while the item does. -/
def LoopNode.run (info : NodeInfo) (kind : CollectionKind) (values : Option JsValue)
    (destination : Option Str) (node : Runner) (path fromPath : List Nat) (memory : Memory) :
    Ran Ended :=
  let ran := kind.run E ahead info values node destination path fromPath memory
  match fromPath with
  | _ :: _ => ran
  | [] =>
      { ran with
        memory := (LoopNode.memories E ahead info kind values destination node path
          memory).headD ran.memory }

/-- The gateway whose functions of the workflow are the one function. -/
def WorkflowEnv.withFunction (function : Runner) : WorkflowEnv :=
  { E with
    selfFunction := fun _ => some fun path memory =>
      let ran := function path [] memory
      (ran.result, ran.memory) }

/-- `CallNode.run`, for a function of the workflow. -/
def CallNode.runSelf (info : NodeInfo) (functionName : Str) (args : JsValue) (async : Bool)
    (function : Runner) : List Nat → List Nat → Memory → Ran Ended :=
  CallNode.run (E.withFunction function) info ("self.".toList ++ functionName) args async

/-- The memories in which a call may have ended: a function that it does not wait for may
still be at its beginning, or it may be over. -/
def CallNode.memories (info : NodeInfo) (functionName : Str) (args : JsValue) (async : Bool)
    (function : Runner) (path : List Nat) (memory : Memory) : List Memory :=
  let ran := CallNode.runSelf E info functionName args async function path [] memory
  match async, E.processOperators args memory with
  | true, some args => [argsBinding.enter args memory, ran.memory]
  | _, _ => [ran.memory]

/-- A call that does not wait goes on while the function does. -/
def CallNode.runNested (info : NodeInfo) (functionName : Str) (args : JsValue) (async : Bool)
    (function : Runner) (path fromPath : List Nat) (memory : Memory) : Ran Ended :=
  let ran := CallNode.runSelf E info functionName args async function path fromPath memory
  match fromPath with
  | _ :: _ => ran
  | [] =>
      { ran with
        memory := (CallNode.memories E info functionName args async function path memory).headD
          ran.memory }

namespace Nested

mutual

def internalRun : Nested → Runner
  | other info action => info.internalRun E fun path _ => action.run path
  | sequence info steps => info.internalRun E (WorkflowNode.run (runners steps))
  | loop info kind values destination body =>
      info.internalRun E (LoopNode.run E ahead info.toNodeInfo kind values
        (destination.map Subtype.val) (internalRun body))
  | call info functionName args async function =>
      info.internalRun E (CallNode.runNested E info.toNodeInfo functionName args async
        (internalRun function))

def runners : List Nested → List Runner
  | [] => []
  | step :: steps => internalRun step :: runners steps

end

end Nested

/-! ## What happens in a run -/

/-- What happens to the names of loops and calls. -/
inductive Event
  /-- a node is executed, in a scope and a memory -/
  | executed (scope memory : Memory)
  /-- a turn or a call begins, which sets the names, and which the loop or call may not wait
  for -/
  | entered (names : List Str) (memory : Memory) (background : Bool)
  /-- a loop or a call has ended, in one of the memories -/
  | ended (before : Memory) (afterwards : List Memory)

/-- A node sees its scope, and after a loop or a call the names are what they were before. -/
def Event.InScope : Event → Prop
  | executed scope memory => Agree scope memory
  | entered _ _ _ => True
  | ended before afterwards => ∀ memory ∈ afterwards, Agree before memory

/-- The names are not in use when they are set, and the loop or call waits until they are
removed. -/
def Event.Fresh : Event → Prop
  | entered names memory background => background = false ∧ ∀ name ∈ names, memory name = none
  | _ => True

/-- The events of the turns of a loop. -/
def turnEvents {Item : Type} (b : Binding Item) (node : Runner)
    (body : List Nat → Memory → Memory → List Event) (path : List Nat) :
    List Item → Nat → Memory → Memory → List Event
  | [], _, _, _ => []
  | item :: items, idx, scope, memory =>
      let ran := node (path ++ [idx]) [] (b.enter item memory)
      .entered b.names memory false ::
        (body (path ++ [idx]) (b.enter item scope) (b.enter item memory) ++
          match ran.result with
          | .error _ =>
              if ahead && !items.isEmpty then [.entered b.names (b.leave ran.memory) true] else []
          | .ok _ => turnEvents b node body path items (idx + 1) scope (b.leave ran.memory))

namespace Nested

mutual

/-- The events of a node that is run in a scope. -/
def events : Nested → List Nat → Memory → Memory → List Event
  | other info _, _, scope, memory => if info.enabled then [.executed scope memory] else []
  | sequence info steps, path, scope, memory =>
      if info.enabled then .executed scope memory :: stepEvents steps path 0 scope memory else []
  | loop info kind values destination body, path, scope, memory =>
      let node := body.internalRun E ahead
      if info.enabled then
        .executed scope memory ::
          ((match kind.turns E values memory with
          | .none => []
          | .items items =>
              turnEvents ahead itemBinding node (events body) path items 0 scope memory
          | .fields fields =>
              turnEvents ahead fieldBinding node (events body) path fields 0 scope memory) ++
            [.ended memory (LoopNode.memories E ahead info.toNodeInfo kind values
              (destination.map Subtype.val) node path memory)])
      else []
  | call info functionName args async function, path, scope, memory =>
      if info.enabled then
        .executed scope memory ::
          ((match E.processOperators args memory with
          | none => []
          | some args =>
              .entered argsBinding.names memory async ::
                events function path (argsBinding.enter args scope)
                  (argsBinding.enter args memory)) ++
            [.ended memory (CallNode.memories E info.toNodeInfo functionName args async
              (function.internalRun E ahead) path memory)])
      else []

def stepEvents : List Nested → List Nat → Nat → Memory → Memory → List Event
  | [], _, _, _, _ => []
  | step :: steps, path, idx, scope, memory =>
      let ran := step.internalRun E ahead (path ++ [idx]) [] memory
      events step (path ++ [idx]) scope memory ++
        match ran.result with
        | .error _ => []
        | .ok _ => stepEvents steps path (idx + 1) scope ran.memory

end

end Nested

/-! ## Events that settle a scope -/

def AllInScope (events : List Event) : Prop := ∀ event ∈ events, event.InScope

def AllFresh (events : List Event) : Prop := ∀ event ∈ events, event.Fresh

/-- The events are in scope exactly if they are fresh, and then the memory after them has the
names of the scope. -/
structure Settled (events : List Event) (scope memory : Memory) : Prop where
  inScope_iff : AllInScope events ↔ AllFresh events
  agree : AllInScope events → Agree scope memory

section Settling

variable {scope memory after : Memory} {events : List Event}

theorem allInScope_append {first second : List Event} :
    AllInScope (first ++ second) ↔ AllInScope first ∧ AllInScope second :=
  List.forall_mem_append

theorem allFresh_append {first second : List Event} :
    AllFresh (first ++ second) ↔ AllFresh first ∧ AllFresh second :=
  List.forall_mem_append

theorem Settled.nil (h : Agree scope memory) : Settled [] scope memory where
  inScope_iff := iff_of_true (List.forall_mem_nil _) (List.forall_mem_nil _)
  agree _ := h

theorem Settled.of_not (hscope : ¬ AllInScope events) (hfresh : ¬ AllFresh events) :
    Settled events scope memory where
  inScope_iff := iff_of_false hscope hfresh
  agree h := absurd h hscope

theorem Settled.append {first second : List Event} (h : Settled first scope memory)
    (hsecond : Agree scope memory → Settled second scope after) :
    Settled (first ++ second) scope after where
  inScope_iff := by
    rw [allInScope_append, allFresh_append, ← h.inScope_iff]
    exact and_congr_right fun hfirst => (hsecond (h.agree hfirst)).inScope_iff
  agree hall := by
    obtain ⟨hfirst, hrest⟩ := allInScope_append.mp hall
    exact (hsecond (h.agree hfirst)).agree hrest

theorem Settled.mono {scope' after' : Memory} (h : Settled events scope after)
    (hagree : Agree scope after → Agree scope' after') : Settled events scope' after' where
  inScope_iff := h.inScope_iff
  agree hall := hagree (h.agree hall)

/-- An event that is in scope and fresh in any case settles nothing. -/
theorem Settled.cons (event : Event) (hscope : event.InScope) (hfresh : event.Fresh)
    (h : Settled events scope after) : Settled (event :: events) scope after where
  inScope_iff := by
    rw [AllInScope, AllFresh, List.forall_mem_cons, List.forall_mem_cons]
    exact and_congr (iff_of_true hscope hfresh) h.inScope_iff
  agree hall := h.agree (List.forall_mem_cons.mp hall).2

/-- The end of a loop or call that was as it should be. -/
theorem Settled.ended {before middle : Memory} (h : Settled events scope middle)
    (hbefore : Agree scope before) (hafter : Agree middle after) :
    Settled (events ++ [.ended before [after]]) scope after := by
  refine h.append fun hmiddle => ?_
  have hagree := hmiddle.trans hafter
  have hended : (Event.ended before [after]).InScope := by
    intro memory hmemory
    rw [List.mem_singleton.mp hmemory]
    exact hbefore.symm.trans hagree
  exact Settled.cons (.ended before [after]) hended trivial (Settled.nil hagree)

end Settling

/-! ## The turns of a loop -/

section Turns

variable {E ahead} {Item : Type} {b : Binding Item} {scope memory : Memory} {item : Item}

theorem Binding.agree_enter (b : Binding Item) (item : Item) (h : Agree scope memory) :
    Agree (b.enter item scope) (b.enter item memory) := by
  intro name hname
  by_cases hmem : name ∈ b.names
  · obtain ⟨value, hvalue⟩ := b.enter_of_mem item name hmem
    rw [hvalue, hvalue]
  · rw [b.enter_of_notMem _ _ _ hmem, b.enter_of_notMem _ _ _ hmem]
    exact h name hname

/-- What a turn takes from memory is what it has put there, if there was nothing before. -/
theorem Binding.agree_leave (b : Binding Item) (item : Item)
    (hnone : ∀ name ∈ b.names, scope name = none)
    (h : Agree (b.enter item scope) memory) : Agree scope (b.leave memory) := by
  intro name hname
  by_cases hmem : name ∈ b.names
  · rw [b.leave_of_mem _ _ hmem, hnone name hmem]
  · rw [b.leave_of_notMem _ _ hmem, h name hname, b.enter_of_notMem _ _ _ hmem]

/-- A turn that is over has nothing left in memory, and one that goes on has, so that they
cannot both be as before. -/
theorem Binding.not_agree_enter_and_leave (hnames : b.names ≠ []) {before ended : Memory} :
    ¬ (Agree before (b.enter item memory) ∧ Agree before (b.leave ended)) := by
  rintro ⟨henter, hleave⟩
  obtain ⟨name, hmem⟩ := List.exists_mem_of_ne_nil _ hnames
  obtain ⟨value, hvalue⟩ := b.enter_of_mem item name hmem
  have hscoped := b.names_scoped name hmem
  have hsome := henter name hscoped
  rw [hvalue, ← hleave name hscoped, b.leave_of_mem _ _ hmem] at hsome
  cases hsome

variable {node : Runner} {body : List Nat → Memory → Memory → List Event} {path : List Nat}
  {items : List Item} {idx : Nat}

/-- After a turn, the names are not set. -/
theorem stream_memory_of_mem (hitems : items ≠ []) :
    ∀ name ∈ b.names,
      (stream ahead b.enter b.leave node path items idx memory).memory name = none := by
  intro name hname
  induction items generalizing idx memory with
  | nil => contradiction
  | cons item items ih =>
      rw [stream]
      cases (node (path ++ [idx]) [] (b.enter item memory)).result with
      | error err => exact b.leave_of_mem _ _ hname
      | ok res =>
          cases items with
          | nil => exact b.leave_of_mem _ _ hname
          | cons next items => exact ih (List.cons_ne_nil _ _)

theorem fresh_of_turnEvents (hitems : items ≠ [])
    (h : AllFresh (turnEvents ahead b node body path items idx scope memory)) :
    ∀ name ∈ b.names, memory name = none := by
  cases items with
  | nil => contradiction
  | cons item items => exact (h _ (List.mem_cons_self ..)).2

/-- A loop that leaves an item running is not fresh. -/
theorem not_fresh_of_leftRunning {left : Item × Nat}
    (hleft : leftRunning ahead b node path items idx memory = some left) :
    ¬ AllFresh (turnEvents ahead b node body path items idx scope memory) := by
  induction items generalizing idx memory with
  | nil => cases hleft
  | cons item items ih =>
      intro h
      have hrest := (allFresh_append.mp (List.forall_mem_cons.mp h).2).2
      rw [leftRunning] at hleft
      cases hresult : (node (path ++ [idx]) [] (b.enter item memory)).result with
      | ok res =>
          simp only [hresult] at hleft hrest
          exact ih hleft hrest
      | error err =>
          simp only [hresult] at hleft hrest
          cases ahead with
          | false => cases hleft
          | true =>
              cases items with
              | nil => cases hleft
              | cons next items =>
                  have hwaits := (hrest _ (List.mem_cons_self ..)).1
                  cases hwaits

/-- The turns of a loop that leaves no item running settle a scope without its names, if its
body settles every scope. -/
theorem settled_turnEvents
    (hbody : ∀ path scope memory, Agree scope memory →
      Settled (body path scope memory) scope (node path [] memory).memory)
    (hnone : ∀ name ∈ b.names, scope name = none)
    (hleft : leftRunning ahead b node path items idx memory = none)
    (hagree : Agree scope memory) :
    Settled (turnEvents ahead b node body path items idx scope memory) scope
      (stream ahead b.enter b.leave node path items idx memory).memory := by
  induction items generalizing idx memory with
  | nil => exact Settled.nil hagree
  | cons item items ih =>
      have hfresh : (Event.entered b.names memory false).Fresh := by
        refine ⟨rfl, fun name hname => ?_⟩
        rw [hagree name (b.names_scoped name hname), hnone name hname]
      have hturn := (hbody (path ++ [idx]) _ _ (b.agree_enter item hagree)).mono
        (b.agree_leave item hnone)
      rw [turnEvents, stream]
      rw [leftRunning] at hleft
      refine Settled.cons (.entered b.names memory false) trivial hfresh ?_
      cases hresult : (node (path ++ [idx]) [] (b.enter item memory)).result with
      | error err =>
          simp only [hresult] at hleft ⊢
          have hlast : (ahead && !items.isEmpty) = false := by
            cases ahead <;> cases items <;> first | rfl | cases hleft
          rw [hlast]
          exact hturn.append fun h => Settled.nil h
      | ok res =>
          simp only [hresult] at hleft ⊢
          exact hturn.append fun h => ih hleft h

/-- A loop settles its scope if its body settles every scope. -/
theorem settled_loop (hnames : b.names ≠ [])
    (hbody : ∀ path scope memory, Agree scope memory →
      Settled (body path scope memory) scope (node path [] memory).memory)
    (hagree : Agree scope memory) {after : Memory}
    (hafter : Agree (stream ahead b.enter b.leave node path items 0 memory).memory after) :
    Settled (turnEvents ahead b node body path items 0 scope memory ++ [.ended memory
        (loopMemories b node path (leftRunning ahead b node path items 0 memory) after)])
      scope ((loopMemories b node path (leftRunning ahead b node path items 0 memory)
        after).headD after) := by
  cases hleft : leftRunning ahead b node path items 0 memory with
  | some left =>
      apply Settled.of_not
      · intro hall
        have hended := hall _ (List.mem_append_right _ (List.mem_singleton_self _))
        exact b.not_agree_enter_and_leave hnames ⟨hended _ (List.mem_cons_self ..),
          hended _ (List.mem_cons_of_mem _ (List.mem_cons_self ..))⟩
      · intro hall
        exact not_fresh_of_leftRunning hleft (allFresh_append.mp hall).1
  | none =>
      by_cases hnone : items ≠ [] → ∀ name ∈ b.names, memory name = none
      · have hturns : Settled (turnEvents ahead b node body path items 0 scope memory) scope
            (stream ahead b.enter b.leave node path items 0 memory).memory := by
          cases items with
          | nil => exact Settled.nil hagree
          | cons item items =>
              refine settled_turnEvents hbody (fun name hname => ?_) hleft hagree
              rw [← hagree name (b.names_scoped name hname)]
              exact hnone (List.cons_ne_nil _ _) name hname
        exact hturns.ended hagree hafter
      · push Not at hnone
        obtain ⟨hitems, name, hname, hused⟩ := hnone
        apply Settled.of_not
        · intro hall
          have hended := hall _ (List.mem_append_right _ (List.mem_singleton_self _))
          have hsame := hended after (List.mem_singleton_self _) name (b.names_scoped name hname)
          rw [hafter name (b.names_scoped name hname),
            stream_memory_of_mem hitems name hname] at hsame
          exact hused hsame.symm
        · intro hall
          exact hused (fresh_of_turnEvents hitems (allFresh_append.mp hall).1 name hname)

/-- A turn that is waited for settles a scope if what is run settles the scope of the turn. -/
theorem settled_turn {events : List Event} {ended : Memory}
    (hevents : Settled events (b.enter item scope) ended) (hagree : Agree scope memory) :
    Settled (.entered b.names memory false :: events ++ [.ended memory [b.leave ended]]) scope
      (b.leave ended) := by
  by_cases hnone : ∀ name ∈ b.names, memory name = none
  · have hscope : ∀ name ∈ b.names, scope name = none := fun name hname =>
      (hagree name (b.names_scoped name hname)).symm.trans (hnone name hname)
    have hturn : Settled (.entered b.names memory false :: events) scope (b.leave ended) :=
      Settled.cons (.entered b.names memory false) trivial ⟨rfl, hnone⟩
        (hevents.mono (b.agree_leave item hscope))
    exact hturn.ended hagree (Agree.refl _)
  · apply Settled.of_not
    · intro hall
      have hended := hall _ (List.mem_append_right _ (List.mem_singleton_self _))
      refine hnone fun name hname => ?_
      rw [← hended _ (List.mem_singleton_self _) name (b.names_scoped name hname),
        b.leave_of_mem _ _ hname]
    · intro hall
      exact hnone (hall _ (List.mem_append_left _ (List.mem_cons_self ..))).2

/-- A turn that is not waited for is neither in scope nor fresh. -/
theorem settled_background (hnames : b.names ≠ []) {events : List Event} {ended after : Memory} :
    Settled (.entered b.names memory true :: events ++
      [.ended memory [b.enter item memory, b.leave ended]]) scope after := by
  apply Settled.of_not
  · intro hall
    have hended := hall _ (List.mem_append_right _ (List.mem_singleton_self _))
    exact b.not_agree_enter_and_leave hnames ⟨hended _ (List.mem_cons_self ..),
      hended _ (List.mem_cons_of_mem _ (List.mem_cons_self ..))⟩
  · intro hall
    have hwaits := (hall _ (List.mem_append_left _ (List.mem_cons_self ..))).1
    cases hwaits

end Turns

/-! ## Nodes -/

section Nodes

variable {E ahead} {scope memory : Memory}

theorem setResult_agree (info : ScopedInfo) (memory : Memory) (res : JsValue) :
    Agree memory (info.setResult memory res) := by
  rw [NodeInfo.setResult]
  cases hresult : info.result with
  | none => exact Agree.refl memory
  | some name => exact agree_set (info.result_notMem name hresult) memory res

theorem input_notMem : "input".toList ∉ scopedNames := by decide

/-- What `internalRun` itself puts in memory is not under the names of loops and calls. -/
theorem finish_agree (info : ScopedInfo) (path : List Nat) (memory : Memory) (ended : Ended) :
    Agree memory (info.finish E path memory ended).memory := by
  have hset := setResult_agree info memory
  cases ended with
  | left err =>
      simp only [NodeInfo.finish]
      split
      · split
        · exact Agree.refl memory
        · exact hset _
      · split <;> exact Agree.refl memory
  | right res =>
      simp only [NodeInfo.finish]
      split
      · dsimp only
        split
        · exact (hset res).trans (agree_set input_notMem _ _)
        · exact hset res
      · split
        · exact hset res
        · exact (hset res).trans (agree_set input_notMem _ _)
  | failed => exact Agree.refl memory
  | thrown => exact Agree.refl memory

/-- What a node has of its own is all that there is to settle. -/
theorem settled_internalRun {info : ScopedInfo} {run : List Nat → List Nat → Memory → Ran Ended}
    {path : List Nat} {events : List Event} (hagree : Agree scope memory)
    (h : Settled events scope (run path [] memory).memory) :
    Settled (if info.enabled then .executed scope memory :: events else []) scope
      (info.internalRun E run path [] memory).memory := by
  rw [NodeInfo.internalRun]
  by_cases henabled : info.enabled
  · rw [if_pos henabled, if_pos henabled]
    refine Settled.cons (.executed scope memory) hagree trivial ?_
    exact h.mono fun hran => hran.trans (finish_agree info path _ _)
  · rw [if_neg henabled, if_neg henabled]
    exact Settled.nil hagree

end Nodes

/-! ## Loops -/

section Loops

variable {E ahead} {scope memory : Memory} {node : Runner} {path : List Nat} {info : NodeInfo}
  {values : Option JsValue} {destination : Option Str} {kind : CollectionKind}

/-- The array of a stream is not stored under a name of loops and calls. -/
theorem ended_agree {Item : Type} (hdestination : ∀ name ∈ destination, name ∉ scopedNames)
    (streamed : Streamed Item) (array : List JsValue) :
    Agree streamed.memory (streamed.ended destination array).memory := by
  simp only [Streamed.ended]
  split
  · exact Agree.refl _
  · split
    · exact Agree.refl _
    · cases destination with
      | none => exact Agree.refl _
      | some name => exact agree_set (hdestination name rfl) _ _

theorem stored_notMem (hdestination : ∀ name ∈ destination, name ∉ scopedNames) :
    ∀ name ∈ kind.stored destination, name ∉ scopedNames := by
  intro name hname
  rw [CollectionKind.stored] at hname
  split at hname
  · exact hdestination name hname
  · cases hname

/-- What a loop runs its body over, for each of its values. -/
theorem turns_cases (E : WorkflowEnv) (kind : CollectionKind) (values : Option JsValue)
    (memory : Memory) :
    (∃ items, (values.bind fun json => E.processOperators json memory) = some (.array items) ∧
      kind.turns E values memory = .items items) ∨
    (∃ fields, (values.bind fun json => E.processOperators json memory) = some (.object fields) ∧
      kind = .foreach ∧ kind.turns E values memory = .fields fields) ∨
    (∀ (ahead : Bool) (info : NodeInfo) (node : Runner) (destination : Option Str)
      (path : List Nat),
        (kind.run E ahead info values node destination path [] memory).memory = memory) ∧
      kind.turns E values memory = .none := by
  simp only [CollectionKind.turns]
  cases hvalues : values.bind fun json => E.processOperators json memory with
  | none =>
      refine Or.inr (Or.inr ⟨fun ahead info node destination path => ?_, rfl⟩)
      cases kind <;>
        simp only [CollectionKind.run, ForEachNode.run, MapNode.run, FlatMapNode.run,
          FilterNode.run, overArray, overValues, hvalues]
  | some processed =>
      cases processed with
      | array items => exact Or.inl ⟨items, rfl, rfl⟩
      | object fields =>
          cases kind with
          | foreach => exact Or.inr (Or.inl ⟨fields, rfl, rfl, rfl⟩)
          | _ =>
              refine Or.inr (Or.inr ⟨fun ahead info node destination path => ?_, rfl⟩)
              simp only [CollectionKind.run, MapNode.run, FlatMapNode.run, FilterNode.run,
                overArray, overValues, hvalues]
      | _ =>
          refine Or.inr (Or.inr ⟨fun ahead info node destination path => ?_, rfl⟩)
          cases kind <;>
            simp only [CollectionKind.run, ForEachNode.run, MapNode.run, FlatMapNode.run,
              FilterNode.run, overArray, overValues, hvalues]

/-- A loop node settles its scope if its body settles every scope. -/
theorem settled_loopNode {body : List Nat → Memory → Memory → List Event}
    (hdestination : ∀ name ∈ destination, name ∉ scopedNames)
    (hbody : ∀ path scope memory, Agree scope memory →
      Settled (body path scope memory) scope (node path [] memory).memory)
    (hagree : Agree scope memory) :
    Settled ((match kind.turns E values memory with
        | .none => []
        | .items items => turnEvents ahead itemBinding node body path items 0 scope memory
        | .fields fields => turnEvents ahead fieldBinding node body path fields 0 scope memory) ++
      [.ended memory (LoopNode.memories E ahead info kind values destination node path memory)])
      scope (LoopNode.run E ahead info kind values destination node path [] memory).memory := by
  rw [LoopNode.run, LoopNode.memories]
  rcases turns_cases E kind values memory with
    ⟨items, hvalues, hturns⟩ | ⟨fields, hvalues, rfl, hturns⟩ | ⟨hmemory, hturns⟩
  · simp only [hturns]
    refine settled_loop (List.cons_ne_nil _ _) hbody hagree ?_
    rw [CollectionKind.run_of_array hvalues]
    exact ended_agree (stored_notMem hdestination) _ _
  · simp only [hturns]
    refine settled_loop (List.cons_ne_nil _ _) hbody hagree ?_
    simp only [CollectionKind.run, ForEachNode.run, overValues, hvalues]
    have hnone : ∀ name ∈ (none : Option Str), name ∉ scopedNames := by simp
    exact ended_agree hnone _ _
  · simp only [hturns]
    exact (Settled.nil hagree).ended hagree (by rw [hmemory]; exact Agree.refl memory)

end Loops

/-! ## Calls -/

section Calls

variable {E} {scope memory : Memory} {function : Runner} {path : List Nat} {info : NodeInfo}
  {functionName : Str} {args : JsValue} {async : Bool}

theorem runSelf_eq : CallNode.runSelf E info functionName args async function path [] memory =
    let called := CallNode.callSelf (E.withFunction function) info
      ("self.".toList ++ functionName) args async path memory
    ⟨called.1, called.2, [⟨path, .running⟩]⟩ := by
  have hself : startsWith ("self.".toList ++ functionName) "self.".toList = true :=
    List.isPrefixOf_iff_prefix.mpr (List.prefix_append ..)
  simp only [CallNode.runSelf, CallNode.run, if_pos hself]

theorem runSelf_of_none (h : E.processOperators args memory = none) :
    (CallNode.runSelf E info functionName args async function path [] memory).memory = memory := by
  rw [runSelf_eq]
  simp only [CallNode.callSelf, WorkflowEnv.withFunction, h]

theorem runSelf_of_some {processed : JsValue}
    (h : E.processOperators args memory = some processed) :
    (CallNode.runSelf E info functionName args async function path [] memory).memory =
      argsBinding.leave (function path [] (argsBinding.enter processed memory)).memory := by
  rw [runSelf_eq]
  simp only [CallNode.callSelf, WorkflowEnv.withFunction, h]
  rfl

/-- A call settles its scope if its function settles every scope. -/
theorem settled_callNode {events : List Nat → Memory → Memory → List Event}
    (hfunction : ∀ path scope memory, Agree scope memory →
      Settled (events path scope memory) scope (function path [] memory).memory)
    (hagree : Agree scope memory) :
    Settled ((match E.processOperators args memory with
        | none => []
        | some args =>
            .entered argsBinding.names memory async ::
              events path (argsBinding.enter args scope) (argsBinding.enter args memory)) ++
      [.ended memory (CallNode.memories E info functionName args async function path memory)])
      scope (CallNode.runNested E info functionName args async function path [] memory).memory := by
  cases hargs : E.processOperators args memory with
  | none =>
      have hmemories : CallNode.memories E info functionName args async function path memory =
          [memory] := by
        cases async <;> simp only [CallNode.memories, hargs, runSelf_of_none hargs]
      simp only [CallNode.runNested, hmemories]
      exact (Settled.nil hagree).ended hagree (Agree.refl memory)
  | some processed =>
      cases async with
      | true =>
          have hmemories : CallNode.memories E info functionName args true function path memory =
              [argsBinding.enter processed memory, argsBinding.leave
                (function path [] (argsBinding.enter processed memory)).memory] := by
            simp only [CallNode.memories, hargs, runSelf_of_some hargs]
          simp only [CallNode.runNested, hmemories]
          exact settled_background (List.cons_ne_nil _ _)
      | false =>
          have hmemories : CallNode.memories E info functionName args false function path memory =
              [argsBinding.leave
                (function path [] (argsBinding.enter processed memory)).memory] := by
            simp only [CallNode.memories, runSelf_of_some hargs]
          simp only [CallNode.runNested, hmemories]
          exact settled_turn (hfunction path _ _ (argsBinding.agree_enter processed hagree)) hagree

end Calls

namespace Nested

variable {E ahead}

theorem settled_steps {steps : List Nested}
    (h : ∀ step ∈ steps, ∀ path scope memory, Agree scope memory →
      Settled (step.events E ahead path scope memory) scope
        (step.internalRun E ahead path [] memory).memory)
    (path : List Nat) (idx : Nat) {scope memory : Memory} (hagree : Agree scope memory) :
    Settled (stepEvents E ahead steps path idx scope memory) scope
      (WorkflowNode.next (runners E ahead steps) path [] idx memory).memory := by
  induction steps generalizing idx memory with
  | nil => exact Settled.nil hagree
  | cons step steps ih =>
      obtain ⟨hstep, hsteps⟩ := List.forall_mem_cons.mp h
      rw [stepEvents, runners, WorkflowNode.next, Ran.andThen]
      have hsettled := hstep (path ++ [idx]) scope memory hagree
      cases hresult : (step.internalRun E ahead (path ++ [idx]) [] memory).result with
      | error err =>
          dsimp only
          exact hsettled.append fun h => Settled.nil h
      | ok res =>
          dsimp only
          exact hsettled.append fun h => ih hsteps (idx + 1) h

/-- Every node settles every scope. -/
theorem settled (node : Nested) : ∀ path scope memory, Agree scope memory →
    Settled (node.events E ahead path scope memory) scope
      (node.internalRun E ahead path [] memory).memory := by
  induction node using Nested.induction with
  | other info action =>
      intro path scope memory hagree
      exact settled_internalRun hagree (Settled.nil (hagree.trans (action.agree path memory)))
  | sequence info steps ih =>
      intro path scope memory hagree
      exact settled_internalRun hagree (settled_steps ih path 0 hagree)
  | loop info kind values destination body ih =>
      intro path scope memory hagree
      have hdestination : ∀ name ∈ destination.map Subtype.val, name ∉ scopedNames := by
        intro name hname
        obtain ⟨⟨bound, hbound⟩, -, rfl⟩ := Option.map_eq_some_iff.mp hname
        exact hbound
      exact settled_internalRun hagree (settled_loopNode hdestination ih hagree)
  | call info functionName args async function ih =>
      intro path scope memory hagree
      exact settled_internalRun hagree (settled_callNode ih hagree)

end Nested

/-- In a run, every node sees the names of the loops and calls around it, and they are back
after each loop and call, exactly if no loop or call sets a name that is in use, or goes on
when it has ended. -/
theorem inScope_iff_fresh (E : WorkflowEnv) (ahead : Bool) (node : Nested) (path : List Nat)
    (memory : Memory) :
    (∀ event ∈ node.events E ahead path memory memory, event.InScope) ↔
      ∀ event ∈ node.events E ahead path memory memory, event.Fresh :=
  (node.settled path memory memory (Agree.refl memory)).inScope_iff

section Examples

def answersNull : Action where
  run _ memory := ⟨.right .null, memory, []⟩
  agree _ memory := Agree.refl memory

def plainInfo : ScopedInfo where
  id := "node".toList
  result_notMem _ hname := absurd hname (Option.not_mem_none _)

/-- A loop over one item. -/
def overOne (body : Nested) : Nested :=
  .loop plainInfo .foreach (some (.array [.bool true])) none body

/-- After an inner loop, a node does not see the item of the outer one any more. -/
theorem exists_not_inScope :
    ¬ ∀ (E : WorkflowEnv) (ahead : Bool) (node : Nested) (path : List Nat) (memory : Memory),
      ∀ event ∈ node.events E ahead path memory memory, event.InScope := by
  intro h
  have hevents := h plainEnv false
    (overOne (.sequence plainInfo
      [overOne (.other plainInfo answersNull), .other plainInfo answersNull])) []
    (fun _ => none)
  have hnode := hevents _ (List.mem_of_getElem? (i := 7) rfl) foreachValue (by decide)
  have hlost : (none : Option JsValue) = some (.bool true) := hnode
  cases hlost

end Examples

end Workflows

end Otoroshi
