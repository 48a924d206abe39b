/-
# Searches that leave a mark

A search looks for a value in one place after the other, and the searches of a program
may note the place in a variable they share. What is in the variable when a value is
used need not be where the value was found: a search that fails late has noted its
place as well.

`Tracks` compares such a search with one that has no variable, where each value carries
its place, and with what the search notes for a place. It composes along the alternatives
and the steps of a search, and what it says holds whatever is in the variable before. So
searches that are tracked can follow each other in any order.
-/

import Otoroshi.Foundation.Stateful

namespace Otoroshi

/-- A search with a shared mark. It finds a value, or it ends without one. -/
abbrev Search (ρ α : Type) := Stateful ρ Unit α

variable {π ρ α β : Type}

namespace Search

/-- A value that is there or not. -/
def ofOption (value : Option α) : Search ρ α :=
  match value with
  | some value => pure value
  | none => Stateful.throw ()

/-- A value that is there or not. If it is, the place is noted. -/
def noting (place : ρ) (value : Option α) : Search ρ α := do
  let found ← ofOption value
  Stateful.modify fun _ => place
  pure found

/-- The second search is for when the first one finds nothing. What the first one noted
stays. -/
def orElse (first second : Search ρ α) : Search ρ α := fun mark =>
  match first mark with
  | (.ok value, after) => (.ok value, after)
  | (.error _, after) => second after

/-- Give the found value the place that is noted. -/
def placed (search : Search ρ α) (place : α → ρ → β) : Search ρ β := do
  let value ← search
  let mark ← Stateful.get
  pure (place value mark)

/-- What the search finds. -/
def result (search : Search ρ α) (mark : ρ) : Option α := (search mark).1.toOption

end Search

open Search

/-- The search finds the value and notes something for its place, or it finds nothing,
whatever was noted before. -/
def Tracks (note : π → ρ) (search : Search ρ α) : Option (α × π) → Prop
  | some (value, place) => ∀ mark, search mark = (.ok value, note place)
  | none => ∀ mark, (search mark).1 = .error ()

variable {note : π → ρ} {search other : Search ρ α} {found otherFound : Option (α × π)}

theorem Tracks.run_of_none (h : Tracks note search none) (mark : ρ) :
    search mark = (.error (), (search mark).2) := Prod.ext (h mark) rfl

/-- What is found does not depend on what was noted before. -/
theorem Tracks.result (h : Tracks note search found) (mark : ρ) :
    search.result mark = found.map Prod.fst := by
  rw [Search.result]
  cases found with
  | none =>
      rw [h mark]
      rfl
  | some located =>
      rw [h mark]
      rfl

theorem tracks_noting (note : π → ρ) (place : π) (value : Option α) :
    Tracks note (noting (note place) value) (value.map fun found => (found, place)) := by
  cases value with
  | none => exact fun mark => rfl
  | some value => exact fun mark => rfl

theorem tracks_orElse (hfirst : Tracks note search found)
    (hsecond : Tracks note other otherFound) :
    Tracks note (orElse search other) (found.or otherFound) := by
  cases found with
  | some located =>
      intro mark
      rw [orElse, hfirst mark]
  | none =>
      have hrun : ∀ mark, orElse search other mark = other (search mark).2 := by
        intro mark
        rw [orElse, hfirst.run_of_none mark]
      cases otherFound with
      | some located =>
          intro mark
          rw [hrun mark]
          exact hsecond _
      | none =>
          intro mark
          rw [hrun mark]
          exact hsecond _

theorem tracks_map (h : Tracks note search found) (f : α → β) :
    Tracks note (search >>= fun value => pure (f value))
      (found.map fun located => (f located.1, located.2)) := by
  cases found with
  | none =>
      intro mark
      rw [Stateful.bind_of_error (h.run_of_none mark)]
  | some located =>
      intro mark
      rw [Stateful.bind_of_ok (h mark)]
      rfl

/-- The value that is found is looked at, and kept or not. -/
theorem tracks_filterMap (h : Tracks note search found) (f : α → Option β) :
    Tracks note (search >>= fun value => ofOption (f value))
      (found.bind fun located => (f located.1).map fun value => (value, located.2)) := by
  cases found with
  | none =>
      intro mark
      rw [Stateful.bind_of_error (h.run_of_none mark)]
  | some located =>
      have hrun : ∀ mark, (search >>= fun value => ofOption (f value)) mark =
          ofOption (f located.1) (note located.2) := by
        intro mark
        exact Stateful.bind_of_ok (h mark)
      rw [Option.bind_some]
      cases hvalue : f located.1 with
      | none =>
          intro mark
          rw [hrun mark, hvalue]
          rfl
      | some value =>
          intro mark
          rw [hrun mark, hvalue]
          rfl

theorem tracks_placed (h : Tracks note search found) (place : α → ρ → β) :
    Tracks note (placed search place)
      (found.map fun located => (place located.1 (note located.2), located.2)) := by
  cases found with
  | none =>
      intro mark
      rw [placed, Stateful.bind_of_error (h.run_of_none mark)]
  | some located =>
      intro mark
      rw [placed, Stateful.bind_of_ok (h mark)]
      rfl

end Otoroshi
