/-
# Tests that can fail

A test on the platform answers yes, no, or stops with an exception. `<&&>`,
`<||>` and `List.anyM` evaluate such tests from left to right and stop at the
first one that decides, so a later test that would fail is not always reached.

The lemmas say when such an evaluation answers yes. Where no test fails, it is
the conjunction, the disjunction or the search that it looks like.
-/

import Otoroshi.Foundation.Stateful

namespace Otoroshi

variable {ε α : Type}

/-- The test does not fail. -/
def Answers (test : Except ε Bool) : Prop := ∃ answer, test = .ok answer

theorem answers_ok (answer : Bool) : Answers (.ok answer : Except ε Bool) := ⟨answer, rfl⟩

@[simp]
theorem answers_pure (answer : Bool) : Answers (pure answer : Except ε Bool) := ⟨answer, rfl⟩

/-! ## Two tests -/

@[simp]
theorem and_eq_ok_true (first second : Except ε Bool) :
    (first <&&> second) = .ok true ↔ first = .ok true ∧ second = .ok true := by
  cases first with
  | error e =>
      rw [andM, error_bind]
      simp
  | ok answer => cases answer <;> simp [andM, toBool]

theorem and_eq_ok_false_of_left {first : Except ε Bool} (second : Except ε Bool)
    (h : first = .ok false) : (first <&&> second) = .ok false := by
  rw [h]
  rfl

theorem and_of_left {first : Except ε Bool} (second : Except ε Bool) (h : first = .ok true) :
    (first <&&> second) = second := by
  rw [h]
  rfl

theorem or_of_left {first : Except ε Bool} (second : Except ε Bool) (h : first = .ok true) :
    (first <||> second) = .ok true := by
  rw [h]
  rfl

theorem or_of_not_left {first : Except ε Bool} (second : Except ε Bool) (h : first = .ok false) :
    (first <||> second) = second := by
  rw [h]
  rfl

theorem or_eq_ok_true (first second : Except ε Bool) :
    (first <||> second) = .ok true ↔
      first = .ok true ∨ (first = .ok false ∧ second = .ok true) := by
  cases first with
  | error e =>
      rw [orM, error_bind]
      simp
  | ok answer => cases answer <;> simp [orM, toBool]

theorem Answers.and {first second : Except ε Bool} (hfirst : Answers first)
    (hsecond : Answers second) : Answers (first <&&> second) := by
  cases hfirst with
  | intro answer h =>
      cases answer with
      | false => exact ⟨false, and_eq_ok_false_of_left second h⟩
      | true => rwa [and_of_left second h]

theorem Answers.left_of_and {first second : Except ε Bool} (h : Answers (first <&&> second)) :
    Answers first := by
  cases first with
  | ok answer => exact answers_ok answer
  | error e =>
      obtain ⟨answer, h⟩ := h
      rw [andM, error_bind] at h
      contradiction

theorem Answers.or {first second : Except ε Bool} (hfirst : Answers first)
    (hsecond : Answers second) : Answers (first <||> second) := by
  cases hfirst with
  | intro answer h =>
      cases answer with
      | false => rwa [or_of_not_left second h]
      | true => exact ⟨true, or_of_left second h⟩

theorem Answers.left_of_or {first second : Except ε Bool} (h : Answers (first <||> second)) :
    Answers first := by
  cases first with
  | ok answer => exact answers_ok answer
  | error e =>
      obtain ⟨answer, h⟩ := h
      rw [orM, error_bind] at h
      contradiction

/-! ## A search -/

section Search

variable {test : α → Except ε Bool} {items : List α}

theorem anyM_cons_eq_or (item : α) (items : List α) :
    (item :: items).anyM test = (test item <||> items.anyM test) := by
  rw [List.anyM_cons]
  cases test item with
  | error e => rfl
  | ok answer => cases answer <;> rfl

theorem anyM_one (item : α) : [item].anyM test = test item := by
  rw [anyM_cons_eq_or]
  cases test item with
  | error e => rfl
  | ok answer => cases answer <;> rfl

/-- The first item is always asked. -/
theorem answers_head_of_anyM {item : α} {items : List α}
    (h : Answers ((item :: items).anyM test)) : Answers (test item) := by
  rw [anyM_cons_eq_or] at h
  exact h.left_of_or

theorem exists_of_anyM_eq_true (h : items.anyM test = .ok true) :
    ∃ item ∈ items, test item = .ok true := by
  induction items with
  | nil => simp at h
  | cons item items ih =>
      rw [anyM_cons_eq_or, or_eq_ok_true] at h
      cases h with
      | inl hitem => exact ⟨item, List.mem_cons_self, hitem⟩
      | inr hitems =>
          obtain ⟨found, hmem, hfound⟩ := ih hitems.2
          exact ⟨found, List.mem_cons_of_mem item hmem, hfound⟩

theorem forall_of_anyM_eq_false (h : items.anyM test = .ok false) :
    ∀ item ∈ items, test item = .ok false := by
  induction items with
  | nil => simp
  | cons item items ih =>
      rw [anyM_cons_eq_or] at h
      cases htest : test item with
      | error e => simp [htest, orM] at h
      | ok answer =>
          cases answer with
          | true => simp [or_of_left _ htest] at h
          | false =>
              rw [or_of_not_left _ htest] at h
              simpa [htest] using ih h

/-- Where no item fails, the search is the existence of an item. -/
theorem anyM_eq_true_iff (htests : ∀ item ∈ items, Answers (test item)) :
    items.anyM test = .ok true ↔ ∃ item ∈ items, test item = .ok true := by
  constructor
  · exact exists_of_anyM_eq_true
  · intro h
    induction items with
    | nil => simp at h
    | cons item items ih =>
        rw [anyM_cons_eq_or, or_eq_ok_true]
        cases (htests item List.mem_cons_self) with
        | intro answer htest =>
            cases answer with
            | true => exact .inl htest
            | false =>
                have hrest : ∃ later ∈ items, test later = .ok true := by simpa [htest] using h
                exact .inr ⟨htest, ih (fun later hlater =>
                  htests later (List.mem_cons_of_mem item hlater)) hrest⟩

theorem answers_anyM (htests : ∀ item ∈ items, Answers (test item)) :
    Answers (items.anyM test) := by
  induction items with
  | nil => exact answers_pure false
  | cons item items ih =>
      rw [anyM_cons_eq_or]
      exact (htests item List.mem_cons_self).or
        (ih fun later hlater => htests later (List.mem_cons_of_mem item hlater))

/-- A search for something weaker finds something where the search did. -/
theorem anyM_eq_true_of_imp {weaker : α → Except ε Bool}
    (himp : ∀ item ∈ items, test item = .ok true → weaker item = .ok true)
    (hanswers : ∀ item ∈ items, Answers (test item) → Answers (weaker item))
    (h : items.anyM test = .ok true) : items.anyM weaker = .ok true := by
  induction items with
  | nil => simp at h
  | cons item items ih =>
      rw [anyM_cons_eq_or, or_eq_ok_true] at h ⊢
      cases h with
      | inl hitem => exact .inl (himp item List.mem_cons_self hitem)
      | inr hitems =>
          have hrest := ih (fun later hlater => himp later (List.mem_cons_of_mem item hlater))
            (fun later hlater => hanswers later (List.mem_cons_of_mem item hlater)) hitems.2
          cases hanswers item List.mem_cons_self ⟨false, hitems.1⟩ with
          | intro answer hweaker =>
              cases answer with
              | true => exact .inl hweaker
              | false => exact .inr ⟨hweaker, hrest⟩

end Search

/-- `forall`: stops at the first item without it. -/
def allM (test : α → Except ε Bool) : List α → Except ε Bool
  | [] => .ok true
  | item :: items => test item <&&> allM test items

theorem allM_eq_true_iff (test : α → Except ε Bool) (items : List α) :
    allM test items = .ok true ↔ ∀ item ∈ items, test item = .ok true := by
  induction items with
  | nil => simp [allM]
  | cons item items ih => rw [allM, and_eq_ok_true, ih, List.forall_mem_cons]

/-! ## Folds -/

/-- A fold gets to its end when every step that it comes to does. -/
theorem foldlM_eq_ok_iff {β : Type} {step : β → α → Except ε β} {items : List α} {start : β} :
    (∃ last, items.foldlM step start = .ok last) ↔
      ∀ before item after found, items = before ++ item :: after →
        before.foldlM step start = .ok found → ∃ next, step found item = .ok next := by
  induction items generalizing start with
  | nil => simp
  | cons first items ih =>
      rw [List.foldlM_cons]
      constructor
      · rintro ⟨last, hlast⟩ before item after found hitems hfound
        obtain ⟨next, hnext, hrest⟩ := bind_eq_ok_iff.mp hlast
        cases before with
        | nil =>
            cases hitems
            cases hfound
            exact ⟨next, hnext⟩
        | cons head before =>
            cases hitems
            rw [List.foldlM_cons, hnext] at hfound
            exact ih.mp ⟨last, hrest⟩ before item after found rfl hfound
      · intro h
        obtain ⟨next, hnext⟩ := h [] first items start rfl rfl
        obtain ⟨last, hlast⟩ := ih.mpr fun before item after found hitems hfound =>
          h (first :: before) item after found (congrArg (first :: ·) hitems)
            (by rw [List.foldlM_cons, hnext]; exact hfound)
        exact ⟨last, by rw [hnext]; exact hlast⟩

end Otoroshi
