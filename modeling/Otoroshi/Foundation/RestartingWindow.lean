/-
# Restarting windows

Events are counted in windows. A window begins with an event, and the next one begins with the first
event that comes a width or more after that. When the count reaches a limit the window trips, and
the count begins again within the window. The width and the limit come with the event, and the lists
have the newest event first.

Such a window is not a sliding one. What it trips on is crowded (`within_of_trips`), but only twice
the limit is sure to trip it (`trips_of_crowded`), as a crowd can be cut in two by a new window.
-/

import Mathlib.Data.List.Infix
import Mathlib.Data.List.Basic
import Mathlib.Data.Int.Order.Basic

namespace Otoroshi

/-- What a window looks at. -/
structure WindowRule (α : Type) where
  instant : α → Int
  width : α → Int
  limit : α → Int

namespace WindowRule

variable {α : Type} (W : WindowRule α)

/-- An event begins a window if there is none, or if the last one is over. -/
def begins (event : α) : Option Int → Bool
  | none => true
  | some begun => decide (W.width event ≤ W.instant event - begun)

/-- The instant at which the window of the newest event began. -/
def start : List α → Option Int
  | [] => none
  | event :: events =>
      if W.begins event (start events) then some (W.instant event) else start events

/-- The limit of the newest event is reached. -/
def full (counted : List α) : Bool :=
  counted.head?.any fun event => decide (W.limit event ≤ counted.length)

/-- The events that are counted with the newest one. -/
def counted : List α → List α
  | [] => []
  | event :: events =>
      if W.begins event (W.start events) || W.full (counted events) then [event]
      else event :: counted events

/-- The newest event trips the window. -/
def trips (events : List α) : Bool := W.full (W.counted events)

/-- The newest event that tripped the window. -/
def lastTrip : List α → Option α
  | [] => none
  | event :: events => if W.trips (event :: events) then some event else lastTrip events

/-- The newest event comes first. -/
abbrev Ordered (events : List α) : Prop :=
  events.Pairwise fun later earlier => W.instant earlier ≤ W.instant later

variable {W} {event : α} {events : List α}

theorem start_cons : W.start (event :: events) =
    if W.begins event (W.start events) then some (W.instant event) else W.start events := rfl

theorem counted_cons : W.counted (event :: events) =
    if W.begins event (W.start events) || W.trips events then [event]
    else event :: W.counted events := rfl

theorem start_eq_none : W.start events = none ↔ events = [] := by
  induction events with
  | nil => exact ⟨fun _ => rfl, fun _ => rfl⟩
  | cons event events ih =>
      rw [start_cons]
      split_ifs with hbegins
      · simp
      · have hnone : W.start events ≠ none := fun hnone => hbegins (by rw [hnone]; rfl)
        simp [hnone]

theorem head?_counted : (W.counted (event :: events)).head? = some event := by
  rw [counted_cons]
  split_ifs <;> rfl

theorem trips_cons :
    W.trips (event :: events) = decide (W.limit event ≤ (W.counted (event :: events)).length) := by
  rw [trips, full, head?_counted]
  rfl

theorem counted_prefix (events : List α) : W.counted events <+: events := by
  induction events with
  | nil => exact List.nil_prefix
  | cons event events ih =>
      rw [counted_cons]
      split_ifs
      · exact List.cons_prefix_cons.mpr ⟨rfl, List.nil_prefix⟩
      · exact List.cons_prefix_cons.mpr ⟨rfl, ih⟩

/-- What is counted did not happen before the window began. -/
theorem start_le_of_mem_counted (h : W.Ordered events) {begun : Int}
    (hbegun : W.start events = some begun) {other : α} (hother : other ∈ W.counted events) :
    begun ≤ W.instant other := by
  induction events generalizing other with
  | nil => cases hother
  | cons event events ih =>
      have hsorted := List.pairwise_cons.mp h
      rw [start_cons] at hbegun
      rw [counted_cons] at hother
      by_cases hbegins : W.begins event (W.start events) = true
      · rw [if_pos hbegins] at hbegun
        rw [hbegins, Bool.true_or, if_pos rfl, List.mem_singleton] at hother
        cases hbegun
        rw [hother]
      · rw [if_neg hbegins] at hbegun
        have hstart : ∀ other ∈ W.counted events, begun ≤ W.instant other :=
          fun other hother => ih hsorted.2 hbegun hother
        cases hevents : events with
        | nil => rw [hevents] at hbegins; exact absurd rfl hbegins
        | cons last older =>
            have hlast : last ∈ W.counted events := by
              rw [hevents]
              exact List.mem_of_mem_head? head?_counted
            have hevent : begun ≤ W.instant event :=
              (hstart last hlast).trans (hsorted.1 last (hevents ▸ List.mem_cons_self))
            split_ifs at hother
            · rw [List.mem_singleton.mp hother]
              exact hevent
            · rcases List.mem_cons.mp hother with rfl | hmem
              · exact hevent
              · exact hstart other hmem

/-- Events that are counted together are less than a width apart. -/
theorem within_of_counted (h : W.Ordered (event :: events)) :
    W.counted (event :: events) = [event] ∨
      ∀ other ∈ W.counted (event :: events), W.instant event - W.instant other < W.width event := by
  cases hcond : W.begins event (W.start events) || W.trips events with
  | true => exact Or.inl (by rw [counted_cons, hcond, if_pos rfl])
  | false =>
      right
      intro other hother
      have hbegins := (Bool.or_eq_false_iff.mp hcond).1
      have hstart : W.start (event :: events) = W.start events := by
        rw [start_cons, hbegins, if_neg Bool.false_ne_true]
      cases hbegun : W.start events with
      | none =>
          rw [hbegun] at hbegins
          cases hbegins
      | some begun =>
          have hle := start_le_of_mem_counted h (hstart.trans hbegun) hother
          rw [hbegun, begins, decide_eq_false_iff_not] at hbegins
          omega

/-- A window trips on as many events as its limit, in less than its width. -/
theorem within_of_trips (h : W.Ordered (event :: events)) (htrips : W.trips (event :: events)) :
    ∃ group, group <+: event :: events ∧ W.limit event ≤ group.length ∧
      (group = [event] ∨
        ∀ other ∈ group, W.instant event - W.instant other < W.width event) := by
  rw [trips_cons] at htrips
  exact ⟨_, counted_prefix _, of_decide_eq_true htrips, within_of_counted h⟩

/-- Where a crowd does not trip the window, it has at most been cut in two. -/
theorem length_le_of_not_trips {width limit : Int} {recent older : List α} (hrecent : recent ≠ [])
    (hrule : ∀ event ∈ recent, W.width event = width ∧ W.limit event = limit)
    (hcrowd : ∀ first ∈ recent, ∀ second ∈ recent, W.instant first - W.instant second < width)
    (htrips : ∀ newer event rest, recent = newer ++ event :: rest →
      W.trips (event :: (rest ++ older)) = false) :
    recent.length ≤ (W.counted (recent ++ older)).length ∨
      (∃ event ∈ recent, W.start (recent ++ older) = some (W.instant event)) ∧
        (recent.length : Int) ≤ (W.counted (recent ++ older)).length + (limit - 1) := by
  induction recent with
  | nil => exact absurd rfl hrecent
  | cons event recent ih =>
      rw [List.cons_append, counted_cons, start_cons]
      cases hrest : recent with
      | nil =>
          left
          split_ifs <;> simp
      | cons last rest =>
          have hlast : W.trips (recent ++ older) = false := by
            rw [hrest]
            exact htrips [event] last rest (by rw [hrest]; rfl)
          have hfew : ((W.counted (recent ++ older)).length : Int) < limit := by
            have hlimit := (hrule last (by rw [hrest]; simp)).2
            rw [hrest, List.cons_append, trips_cons, decide_eq_false_iff_not, hlimit] at hlast
            rw [hrest]
            exact Int.not_le.mp hlast
          rw [← hrest, hlast, Bool.or_false]
          have hih := ih (by rw [hrest]; exact List.cons_ne_nil _ _)
            (fun other hother => hrule other (List.mem_cons_of_mem _ hother))
            (fun first hfirst second hsecond =>
              hcrowd first (List.mem_cons_of_mem _ hfirst) second (List.mem_cons_of_mem _ hsecond))
            (fun newer other rest hsplit => htrips (event :: newer) other rest (by rw [hsplit]; rfl))
          rcases hih with hlong | ⟨⟨first, hfirst, hstart⟩, hlong⟩
          · by_cases hbegins : W.begins event (W.start (recent ++ older)) = true
            · right
              rw [if_pos hbegins, if_pos hbegins]
              refine ⟨⟨event, List.mem_cons_self, rfl⟩, ?_⟩
              rw [List.length_cons, List.length_singleton]
              omega
            · left
              rw [if_neg hbegins, List.length_cons, List.length_cons]
              exact Nat.succ_le_succ hlong
          · have hbegins : W.begins event (W.start (recent ++ older)) = false := by
              have hclose := hcrowd event List.mem_cons_self first (List.mem_cons_of_mem _ hfirst)
              rw [hstart, begins, decide_eq_false_iff_not, (hrule event List.mem_cons_self).1]
              exact Int.not_le.mpr hclose
            right
            rw [hbegins, if_neg Bool.false_ne_true, if_neg Bool.false_ne_true]
            refine ⟨⟨first, List.mem_cons_of_mem _ hfirst, hstart⟩, ?_⟩
            rw [List.length_cons, List.length_cons]
            omega

/-- Twice the limit less one, in less than a width, trips the window. -/
theorem trips_of_crowded {width limit : Int} {recent older : List α} (hrecent : recent ≠ [])
    (hrule : ∀ event ∈ recent, W.width event = width ∧ W.limit event = limit)
    (hcrowd : ∀ first ∈ recent, ∀ second ∈ recent, W.instant first - W.instant second < width)
    (hlength : 2 * limit - 1 ≤ recent.length) :
    ∃ newer event rest, recent = newer ++ event :: rest ∧ W.trips (event :: (rest ++ older)) := by
  by_contra hnone
  push Not at hnone
  have htrips : ∀ newer event rest, recent = newer ++ event :: rest →
      W.trips (event :: (rest ++ older)) = false :=
    fun newer event rest hsplit => Bool.eq_false_iff.mpr (hnone newer event rest hsplit)
  have hcut := length_le_of_not_trips hrecent hrule hcrowd htrips
  cases hsplit : recent with
  | nil => exact hrecent hsplit
  | cons event rest =>
      have hfew := htrips [] event rest hsplit
      rw [trips_cons, decide_eq_false_iff_not, (hrule event (hsplit ▸ List.mem_cons_self)).2] at hfew
      rw [hsplit, List.cons_append] at hcut
      rw [hsplit] at hlength
      rw [List.length_cons] at hcut hlength
      have hone : 1 ≤ (W.counted (event :: (rest ++ older))).length := by
        cases hcounted : W.counted (event :: (rest ++ older)) with
        | nil =>
            have hhead : (W.counted (event :: (rest ++ older))).head? = some event := head?_counted
            rw [hcounted] at hhead
            cases hhead
        | cons _ _ => exact Nat.succ_pos _
      omega

end WindowRule

end Otoroshi
