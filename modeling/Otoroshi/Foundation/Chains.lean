/-
# Chains that hand a value on

The items of a chain are called one after the other. Each one is given the value that the one
before it handed on, and hands a value on, gives an answer of its own, fails, or throws. The chain
ends at the first item that hands nothing on.

`Linked` says which calls a chain can make and how it ends. Where it hands a value out, all items
were called (`Linked.all_pass`), and each was given what the one before it handed on
(`Linked.isChain`).
-/

import Mathlib.Data.List.Chain

namespace Otoroshi.Chains

variable {ι α ρ ε : Type}

/-- How the call of an item ends. -/
inductive Verdict (α ρ ε : Type)
  | passes (value : α)
  | answers (answer : ρ)
  | fails (e : ε)
  | throws (e : ε)
  deriving DecidableEq

namespace Verdict

def isPass : Verdict α ρ ε → Bool
  | passes _ => true
  | _ => false

end Verdict

/-- A call of an item: what it was given, and how it ended. -/
structure Call (ι α ρ ε : Type) where
  item : ι
  given : α
  verdict : Verdict α ρ ε
  deriving DecidableEq

/-- The calls that a chain of the items makes for a value, and how it ends. -/
inductive Linked : List ι → α → List (Call ι α ρ ε) → Verdict α ρ ε → Prop
  | nil (given : α) : Linked [] given [] (.passes given)
  | pass {item : ι} {items : List ι} {given value : α} {calls : List (Call ι α ρ ε)}
      {ending : Verdict α ρ ε} (h : Linked items value calls ending) :
      Linked (item :: items) given (⟨item, given, .passes value⟩ :: calls) ending
  | stop {item : ι} {items : List ι} {given : α} {verdict : Verdict α ρ ε}
      (h : verdict.isPass = false) : Linked (item :: items) given [⟨item, given, verdict⟩] verdict

namespace Linked

variable {items : List ι} {given : α} {calls : List (Call ι α ρ ε)} {ending : Verdict α ρ ε}

/-- All items are called where a value comes out, and all of them hand one on. -/
theorem all_pass (h : Linked items given calls ending) (hpass : ending.isPass = true) :
    calls.map Call.item = items ∧ ∀ call ∈ calls, call.verdict.isPass = true := by
  induction h with
  | nil given => exact ⟨rfl, List.forall_mem_nil _⟩
  | pass h ih =>
      obtain ⟨hitems, hcalls⟩ := ih hpass
      exact ⟨congrArg _ hitems, List.forall_mem_cons.mpr ⟨rfl, hcalls⟩⟩
  | stop h =>
      rw [h] at hpass
      cases hpass

/-- Values are given as they were handed on. -/
theorem isChain (h : Linked items given calls ending) :
    calls.IsChain fun call next => call.verdict = .passes next.given := by
  induction h with
  | nil given => exact List.isChain_nil
  | pass h ih =>
      cases h with
      | nil given => exact List.isChain_singleton _
      | pass h => exact List.isChain_cons_cons.mpr ⟨rfl, ih⟩
      | stop h => exact List.isChain_cons_cons.mpr ⟨rfl, ih⟩
  | stop h => exact List.isChain_singleton _

end Linked

end Otoroshi.Chains
