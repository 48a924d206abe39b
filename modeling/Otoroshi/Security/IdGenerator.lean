/-
# Generated ids

An id is a word of 64 bits: the time in milliseconds, the number of the generator and a counter
of ten bits. A node keeps the time and the counter of its last id in one word. A call reads that
word, reads the clock and sets the word, if it has not changed in between, and otherwise starts
over. `nextId` throws when the clock is behind the last id, and `nextIdStr` marks the id then
with a number of its own.

A run is any sequence of single steps of any threads on any nodes, with any readings of the
clocks. What a step does to a node, and the id it may return, is `step`.
-/

import Otoroshi.Foundation.BitFields
import Otoroshi.Foundation.Long
import Otoroshi.Foundation.Run

namespace Otoroshi

namespace IdGenerator

/-- A `Long`, by its bits. -/
abbrev Word := BitVec 64

def minus : Word := 1288834974657

def counterMask : Word := 1023

/-- The word of the last id: its timestamp and its counter. -/
def nextState (prev timestamp : Word) : Word :=
  (timestamp <<< 12) ||| (((prev &&& counterMask) + 1) &&& counterMask)

/-- The clock is behind the last id. -/
def isBehind (timestamp prev : Word) : Bool := timestamp.slt (prev.sshiftRight 12)

/-- An id. -/
def pack (generatorId timestamp counter : Word) : Word :=
  ((timestamp - minus) <<< 22) ||| (generatorId <<< 10) ||| counter

/-! ## The steps of a call -/

inductive Kind
  | nextId
  | nextIdStr
  deriving DecidableEq

/-- Where a thread is: outside of a call, at the start of the loop, behind the reading of the
last id, behind that of the clock, or out of the loop with its place in the order of the ids. -/
inductive Place
  | idle
  | looping (kind : Kind)
  | loaded (kind : Kind) (prev : Word)
  | timed (kind : Kind) (prev timestamp : Word)
  | swapped (prev timestamp next : Word) (number : Nat)
  deriving DecidableEq

inductive Action
  | call (kind : Kind)
  | load
  | clock (timestamp : Word)
  | compareAndSet
  | append
  deriving DecidableEq

/-- An id that a call has returned: the number, and the one behind the dash. What it was made
from is noted beside it: the reading of the clock, how many ids the node had made before, and for
a marked id how many it had marked. -/
structure Issued where
  value : Word
  marked : Option Word
  timestamp : Word
  number : Nat
  mark : Option Nat

/-- What is appended to the number. -/
def Issued.appended (issued : Issued) : Str :=
  match issued.marked with
  | none => []
  | some n => '-' :: longText n.toInt

/-- The text of an id. The one of `nextId` is a number, as good as its text. -/
def Issued.id (issued : Issued) : Str := longText issued.value.toInt ++ issued.appended

/-- What the threads of a node share, and where they are. How many ids were made and marked is
only counted here. -/
structure NodeState where
  lastIdState : Word
  duplicates : Word
  threads : Nat → Place
  made : Nat
  marks : Nat

namespace NodeState

def start : NodeState := ⟨-1, 0, fun _ => .idle, 0, 0⟩

/-- A thread goes on. -/
def goto (state : NodeState) (thread : Nat) (place : Place) : NodeState :=
  { state with threads := Function.update state.threads thread place }

/-- The word of the last id is set. -/
def swap (state : NodeState) (next : Word) : NodeState :=
  { state with lastIdState := next, made := state.made + 1 }

/-- `duplicates.incrementAndGet()`. -/
def increment (state : NodeState) : NodeState :=
  { state with duplicates := state.duplicates + 1, marks := state.marks + 1 }

end NodeState

/-- One step of a thread, where it is at such a step. -/
def step (generatorId : Word) (thread : Nat) (action : Action) (state : NodeState) :
    NodeState × Option Issued :=
  match state.threads thread, action with
  | .idle, .call kind =>
      if (1024 : Word).slt generatorId then (state, none)
      else (state.goto thread (.looping kind), none)
  | .looping kind, .load => (state.goto thread (.loaded kind state.lastIdState), none)
  | .loaded kind prev, .clock timestamp =>
      if kind = .nextId ∧ isBehind timestamp prev = true then (state.goto thread .idle, none)
      else (state.goto thread (.timed kind prev timestamp), none)
  | .timed kind prev timestamp, .compareAndSet =>
      if state.lastIdState = prev then
        let next := nextState prev timestamp
        match kind with
        | .nextId =>
            ((state.swap next).goto thread .idle,
              some ⟨pack generatorId timestamp (next &&& counterMask), none, timestamp,
                state.made, none⟩)
        | .nextIdStr =>
            ((state.swap next).goto thread (.swapped prev timestamp next state.made), none)
      else (state.goto thread (.looping kind), none)
  | .swapped prev timestamp next number, .append =>
      let value := pack generatorId timestamp (next &&& counterMask)
      if isBehind timestamp prev then
        (state.increment.goto thread .idle,
          some ⟨value, some (state.increment.duplicates + generatorId), timestamp, number,
            some state.marks⟩)
      else (state.goto thread .idle, some ⟨value, none, timestamp, number, none⟩)
  | _, _ => (state, none)

/-! ## Nodes -/

/-- The generator ids of the nodes. -/
structure Generators (Node : Type) where
  id : Node → Word
  id_le : ∀ node, (id node).toNat ≤ 1024
  id_injective : Function.Injective id

structure Event (Node : Type) where
  node : Node
  thread : Nat
  action : Action

/-- All nodes, and the ids they have returned, each with its node. -/
structure System (Node : Type) where
  nodes : Node → NodeState
  returned : List (Node × Issued)

variable {Node : Type} [DecidableEq Node]

def System.start : System Node := ⟨fun _ => .start, []⟩

/-- Run one event. -/
def Generators.run (generators : Generators Node) (event : Event Node) (system : System Node) :
    System Node :=
  let result := step (generators.id event.node) event.thread event.action
    (system.nodes event.node)
  ⟨Function.update system.nodes event.node result.1,
    system.returned ++ (result.2.map fun issued => (event.node, issued)).toList⟩

/-- The ids that are returned along a run. -/
def Generators.returned (generators : Generators Node) (events : List (Event Node)) :
    List (Node × Issued) :=
  (runAll generators.run System.start events).returned

end IdGenerator

end Otoroshi
