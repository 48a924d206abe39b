/-
# Replacing the matches of a pattern

A matcher goes through a value, and a builder takes what stands between the matches as it is
and, for each match, what a callback makes of its expression. There is one loop for callbacks
that answer at once, and one for callbacks that answer later. `replaced_once` says that both
give the value in which every match is replaced, and that the matches are those of the value,
whatever the callback answers.

The patterns of the program open with a text and go on to the first closing brace. For them
the loops give what the recursion over the rest of the value gives (`replaceOnAsync_placeholders`,
`replaceOn_placeholders`).
-/

import Mathlib.Control.Basic
import Otoroshi.El.Values
import Otoroshi.Foundation.Matches

namespace Otoroshi

namespace ReplaceAllWith

variable {α : Type}

/-- `substring`, which throws outside of the value. -/
def substring (value : List α) (beginIndex endIndex : Int) : Option (List α) :=
  if 0 ≤ beginIndex ∧ beginIndex ≤ endIndex ∧ endIndex ≤ value.length then
    some (Slices.between beginIndex.toNat endIndex.toNat value)
  else none

section Loops

variable (pattern : Sought α) (value : List α) (beginIndex : Int)

/-- The loop of `replaceOn`, with a match that was found. -/
def replaceLoop (callback : List α → Option (List α)) (builder : List α) (last : Nat)
    (found : Nat × Nat) : Option (List α) :=
  (substring value (found.1 + beginIndex) (found.2 - 1)).bind fun expression =>
    (callback expression).bind fun replacement =>
      let builder := builder ++ Slices.between last found.1 value ++ replacement
      match _h : pattern.search value (Sought.resume found) with
      | some next => replaceLoop callback builder found.2 next
      | none => some (builder ++ value.drop found.2)
termination_by value.length + 1 - Sought.resume found
decreasing_by exact Sought.search_decreases _h

/-- `replaceOn`, with `none` where something throws. -/
def replaceOn (callback : List α → Option (List α)) : Option (List α) :=
  match pattern.search value 0 with
  | none => some value
  | some found => replaceLoop pattern value beginIndex callback [] 0 found

variable {m : Type → Type} [Monad m]

/-- The inner function of `replaceOnAsync`. The matcher searches on from `position`. -/
def next (callback : List α → m (List α)) (builder : List α) (position last : Nat) :
    OptionT m (List α) :=
  match _h : pattern.search value position with
  | some found => do
      let expression ← OptionT.mk (pure (substring value (found.1 + beginIndex) (found.2 - 1)))
      let replacement ← OptionT.lift (callback expression)
      next callback (builder ++ Slices.between last found.1 value ++ replacement)
        (Sought.resume found) found.2
  | none => pure (builder ++ value.drop last)
termination_by value.length + 1 - position
decreasing_by exact Sought.search_decreases _h

/-- `replaceOnAsync`, where the callbacks answer in a monad. -/
def replaceOnAsync (callback : List α → m (List α)) : OptionT m (List α) :=
  next pattern value beginIndex callback [] 0 0

end Loops

/-- Every match has room for an expression. -/
def Encloses (pattern : Sought α) (beginIndex : Int) : Prop :=
  ∀ value start stop, pattern.stopAt value start = some stop →
    0 ≤ start + beginIndex ∧ start + beginIndex ≤ stop - 1

/-- What a match encloses. -/
def expression (value : List α) (beginIndex : Int) (found : Nat × Nat) : List α :=
  Slices.between (found.1 + beginIndex).toNat (found.2 - 1) value

variable {pattern : Sought α} {value : List α} {beginIndex : Int} {found : Nat × Nat}
  {first last : Nat} {rest : List (Nat × Nat)}

theorem substring_of_encloses (h : Encloses pattern beginIndex)
    (hstop : pattern.stopAt value found.1 = some found.2) :
    substring value (found.1 + beginIndex) (found.2 - 1) =
      some (expression value beginIndex found) := by
  obtain ⟨hbegin, hend⟩ := h value found.1 found.2 hstop
  have hbounds := pattern.bounds hstop
  rw [substring, if_pos ⟨hbegin, hend, by omega⟩, expression]
  have hnat : ((found.2 : Int) - 1).toNat = found.2 - 1 := by omega
  rw [hnat]

section Steps

variable {callback : List α → Option (List α)} {builder : List α}

theorem replaceLoop_of_none (h : pattern.search value (Sought.resume found) = none) :
    replaceLoop pattern value beginIndex callback builder last found =
      (substring value (found.1 + beginIndex) (found.2 - 1)).bind fun expression =>
        (callback expression).map fun replacement =>
          builder ++ Slices.between last found.1 value ++ replacement ++ value.drop found.2 := by
  rw [replaceLoop]
  split
  · next hsome => rw [h] at hsome; cases hsome
  · simp only [Option.map_eq_bind, Function.comp_def]

theorem replaceLoop_of_some {following : Nat × Nat}
    (h : pattern.search value (Sought.resume found) = some following) :
    replaceLoop pattern value beginIndex callback builder last found =
      (substring value (found.1 + beginIndex) (found.2 - 1)).bind fun expression =>
        (callback expression).bind fun replacement =>
          replaceLoop pattern value beginIndex callback
            (builder ++ Slices.between last found.1 value ++ replacement) found.2 following := by
  rw [replaceLoop]
  split
  · next hsome =>
      rw [h] at hsome
      cases hsome
      rfl
  · next hnone => rw [h] at hnone; cases hnone

variable {m : Type → Type} [Monad m] {answer : List α → m (List α)} {position : Nat}

theorem next_of_none (h : pattern.search value position = none) :
    next pattern value beginIndex answer builder position last =
      pure (builder ++ value.drop last) := by
  rw [next]
  split
  · next hsome => rw [h] at hsome; cases hsome
  · rfl

theorem next_of_some (h : pattern.search value position = some found) :
    next pattern value beginIndex answer builder position last = (do
      let expression ← OptionT.mk (pure (substring value (found.1 + beginIndex) (found.2 - 1)))
      let replacement ← OptionT.lift (answer expression)
      next pattern value beginIndex answer
        (builder ++ Slices.between last found.1 value ++ replacement) (Sought.resume found)
        found.2) := by
  rw [next]
  split
  · next hsome =>
      rw [h] at hsome
      cases hsome
      rfl
  · next hnone => rw [h] at hnone; cases hnone

end Steps

/-! ## Callbacks that answer at once -/

section Pure

variable (f : List α → List α)

/-- What the builder has, and what the rest of the value becomes. -/
theorem replaceLoop_of_leftmost (h : Encloses pattern beginIndex)
    (hrest : pattern.Leftmost value first rest) (builder : List α) (last : Nat)
    (hstop : pattern.stopAt value found.1 = some found.2) (hfirst : Sought.resume found = first) :
    replaceLoop pattern value beginIndex (fun expression => some (f expression)) builder last
        found =
      some (builder ++ Sought.rebuilt value (fun found => f (expression value beginIndex found))
        last (found :: rest)) := by
  induction hrest generalizing builder last found with
  | nil hnone =>
      have hsearch := (Sought.Leftmost.nil hnone).search_of_nil
      rw [← hfirst] at hsearch
      rw [replaceLoop_of_none hsearch, substring_of_encloses h hstop, Option.bind_some,
        Option.map_some, Sought.append_rebuilt_cons, Sought.rebuilt]
  | cons hle hnone hstop' hrest ih =>
      have hsearch := (Sought.Leftmost.cons hle hnone hstop' hrest).search_of_cons
      rw [← hfirst] at hsearch
      rw [replaceLoop_of_some hsearch, substring_of_encloses h hstop, Option.bind_some,
        Option.bind_some, ih _ _ hstop' rfl, Sought.append_rebuilt_cons builder]

variable (m : Type → Type) [Monad m] [LawfulMonad m]

theorem next_of_leftmost (h : Encloses pattern beginIndex)
    (hfound : pattern.Leftmost value first rest) (builder : List α) (last : Nat) :
    next pattern value beginIndex (fun expression => (pure (f expression) : m (List α))) builder
        first last =
      pure (builder ++ Sought.rebuilt value (fun found => f (expression value beginIndex found))
        last rest) := by
  induction hfound generalizing builder last with
  | nil hnone => rw [next_of_none (Sought.Leftmost.nil hnone).search_of_nil, Sought.rebuilt]
  | cons hle hnone hstop hrest ih =>
      rw [next_of_some (Sought.Leftmost.cons hle hnone hstop hrest).search_of_cons,
        substring_of_encloses h hstop, Sought.append_rebuilt_cons, ← ih]
      have hexpression (expression : List α) :
          (OptionT.mk (pure (some expression)) : OptionT m (List α)) = pure expression := rfl
      rw [hexpression, pure_bind, OptionT.lift_pure, pure_bind]

end Pure

/-! ## One pass -/

/-- The value is cut at its leftmost matches, one behind the other. Each is replaced by what the
callback makes of its expression, and nothing else changes; the matches do not depend on what
replaces them. -/
def ReplacedOnce (pattern : Sought α) (beginIndex : Int) (value : List α) : Prop :=
  ∃ found, pattern.Leftmost value 0 found ∧
    Sought.rebuilt value (fun found => Slices.between found.1 found.2 value) 0 found = value ∧
    ∀ callback : List α → List α,
      let replaced := Sought.rebuilt value
        (fun found => callback (expression value beginIndex found)) 0 found
      replaceOn pattern value beginIndex (fun expression => some (callback expression)) =
          some replaced ∧
        ∀ (m : Type → Type) [Monad m] [LawfulMonad m],
          replaceOnAsync pattern value beginIndex
              (fun expression => (pure (callback expression) : m (List α))) =
            pure replaced

theorem replaced_once (h : Encloses pattern beginIndex) (value : List α) :
    ReplacedOnce pattern beginIndex value := by
  obtain ⟨found, hfound⟩ := Sought.exists_leftmost pattern value 0
  refine ⟨found, hfound, hfound.rebuilt_between (Nat.le_refl 0), fun f => ⟨?_, ?_⟩⟩
  · cases found with
    | nil =>
        rw [replaceOn, hfound.search_of_nil]
        rfl
    | cons first rest =>
        rw [replaceOn, hfound.search_of_cons]
        cases hfound with
        | cons _ _ hstop hrest => exact replaceLoop_of_leftmost f h hrest [] 0 hstop rfl
  · intro m _ _
    exact next_of_leftmost f m h hfound [] 0

/-! ## The patterns of the program -/

section Placeholders

variable {opening text content after expr : Str}

theorem close_eq_some (h : Placeholders.close text = some (content, after)) :
    text = content ++ '}' :: after := by
  induction text generalizing content with
  | nil => cases h
  | cons c text ih =>
      rw [Placeholders.close] at h
      split_ifs at h with hc
      · cases h
        rw [hc, List.nil_append]
      · obtain ⟨⟨content', after'⟩, hclose, hfound⟩ := Option.map_eq_some_iff.mp h
        cases hfound
        rw [ih hclose, List.cons_append]

/-- What stands behind the first two characters of a placeholder. -/
theorem drop_two_of_placeholder (hopening : 2 ≤ opening.length)
    (h : Placeholders.placeholder opening text = some (expr, after)) :
    text.drop 2 = expr ++ '}' :: after := by
  rw [Placeholders.placeholder] at h
  split_ifs at h with hopens
  obtain ⟨⟨content, after'⟩, hclose, hfound⟩ := Option.map_eq_some_iff.mp h
  cases hfound
  have hlength := Placeholders.length_le_of_opens hopens
  have htwo : 2 ≤ (text.take opening.length).length := by
    rw [List.length_take]
    omega
  calc text.drop 2 = (text.take opening.length ++ text.drop opening.length).drop 2 := by
        rw [List.take_append_drop]
    _ = (text.take opening.length).drop 2 ++ (content ++ '}' :: after') := by
        rw [List.drop_append_of_le_length htwo, close_eq_some hclose]
    _ = (text.take opening.length).drop 2 ++ content ++ '}' :: after' := by
        rw [List.append_assoc]

/-- `Pattern.compile` of an opening and all that goes on to the first closing brace. -/
def placeholders (opening : Str) : Sought Char where
  stopAt text start :=
    (Placeholders.placeholder opening (text.drop start)).map fun found =>
      text.length - found.2.length
  bounds h := by
    obtain ⟨found, hfound, rfl⟩ := Option.map_eq_some_iff.mp h
    have hlength := Placeholders.length_placeholder hfound
    rw [List.length_drop] at hlength
    omega

/-- What a match of the text is. -/
theorem stopAt_placeholders (hopening : 2 ≤ opening.length) {start stop : Nat}
    (h : (placeholders opening).stopAt text start = some stop) :
    Placeholders.placeholder opening (text.drop start) =
        some (expression text 2 (start, stop), text.drop stop) ∧
      start + 2 < stop := by
  obtain ⟨⟨expr, after⟩, hfound, hstop⟩ := Option.map_eq_some_iff.mp h
  have hdrop : text.drop (start + 2) = expr ++ '}' :: after := by
    rw [← List.drop_drop, drop_two_of_placeholder hopening hfound]
  have hlength : text.length - (start + 2) = expr.length + (after.length + 1) := by
    rw [← List.length_drop, hdrop, List.length_append, List.length_cons]
  have hwidth : stop = start + 2 + (expr.length + 1) := by
    dsimp only at hstop
    omega
  have hexpression : expression text 2 (start, stop) = expr := by
    have hbegin : ((start : Int) + 2).toNat = start + 2 := rfl
    have hend : stop - 1 - (start + 2) = expr.length := by omega
    rw [expression, hbegin, Slices.between, List.drop_take, hdrop, hend, List.take_left']
    rfl
  have hafter : text.drop stop = after := by
    rw [hwidth, ← List.drop_drop, hdrop, List.drop_append]
    simp
  rw [hexpression, hafter]
  exact ⟨hfound, by omega⟩

theorem encloses_placeholders (hopening : 2 ≤ opening.length) :
    Encloses (placeholders opening) 2 := by
  intro value start stop hstop
  have hlong := (stopAt_placeholders hopening hstop).2
  omega

theorem stopAt_eq_none_iff {start : Nat} :
    (placeholders opening).stopAt text start = none ↔
      Placeholders.placeholder opening (text.drop start) = none :=
  Option.map_eq_none_iff

theorem between_cons {low high : Nat} {c : Char} (hdrop : text.drop low = c :: after)
    (h : low < high) : Slices.between low high text = c :: Slices.between (low + 1) high text := by
  obtain ⟨width, rfl⟩ : ∃ width, high = low + 1 + width := ⟨high - (low + 1), by omega⟩
  have hnext : text.drop (low + 1) = after := by
    rw [← List.drop_drop, hdrop, List.drop_one, List.tail_cons]
  have hwidth : low + 1 + width - low = width + 1 := by omega
  rw [Slices.between, Slices.between, List.drop_take, List.drop_take, hdrop, hnext, hwidth,
    List.take_succ_cons, Nat.add_sub_cancel_left]

/-- The matcher finds what the recursion finds in the rest of the text. -/
theorem find_drop (hopening : 2 ≤ opening.length) (text : Str) {places first : Nat}
    (hplaces : first + places = text.length + 1) :
    Placeholders.find opening (text.drop first) =
      ((placeholders opening).searchIn text places first).map fun found =>
        (Slices.between first found.1 text, expression text 2 found, text.drop found.2) := by
  induction places generalizing first with
  | zero =>
      rw [List.drop_of_length_le (by omega)]
      rfl
  | succ places ih =>
      have hnext := @ih (first + 1) (by omega)
      rw [Sought.searchIn]
      cases hstop : (placeholders opening).stopAt text first with
      | some stop =>
          obtain ⟨hfound, hlong⟩ := stopAt_placeholders hopening hstop
          have hbounds := (placeholders opening).bounds hstop
          obtain ⟨c, rest, hdrop⟩ : ∃ c rest, text.drop first = c :: rest :=
            List.exists_cons_of_ne_nil (by rw [ne_eq, List.drop_eq_nil_iff]; omega)
          rw [hdrop] at hfound ⊢
          rw [Placeholders.find, hfound, Option.map_some,
            Slices.between_of_le (Nat.le_refl first)]
      | none =>
          have hnone := stopAt_eq_none_iff.mp hstop
          cases hdrop : text.drop first with
          | nil =>
              rw [List.drop_eq_nil_iff] at hdrop
              rw [List.drop_of_length_le (by omega)] at hnext
              rw [Option.map_eq_none_iff.mp hnext.symm]
              rfl
          | cons c rest =>
              have hrest : text.drop (first + 1) = rest := by
                rw [← List.drop_drop, hdrop, List.drop_one, List.tail_cons]
              rw [hdrop] at hnone
              rw [hrest] at hnext
              rw [Placeholders.find, hnone, hnext]
              dsimp only
              cases hsearch : (placeholders opening).searchIn text places (first + 1) with
              | none => rfl
              | some found =>
                  have hlater : first < found.1 := (Sought.searchIn_eq_some hsearch).1
                  rw [Option.map_some, Option.map_some, Option.map_some,
                    between_cons hdrop hlater]

theorem find_eq (hopening : 2 ≤ opening.length) {first : Nat} (hfirst : first ≤ text.length) :
    Placeholders.find opening (text.drop first) =
      ((placeholders opening).search text first).map fun found =>
        (Slices.between first found.1 text, expression text 2 found, text.drop found.2) :=
  find_drop hopening text (by omega)

theorem resume_eq {found : Nat × Nat} (hopening : 2 ≤ opening.length)
    (h : (placeholders opening).stopAt text found.1 = some found.2) :
    Sought.resume found = found.2 := by
  have hlong := (stopAt_placeholders hopening h).2
  rw [Sought.resume, if_neg (by omega)]

variable {σ : Type}

theorem next_placeholders (hopening : 2 ≤ opening.length) (callback : Str → StateM σ Str)
    (builder : Str) {first : Nat} (hfirst : first ≤ text.length) :
    next (placeholders opening) text 2 callback builder first first =
      OptionT.lift (do
        let rest ← Placeholders.replaceOnAsync opening callback (text.drop first)
        pure (builder ++ rest)) := by
  have hfind := find_eq hopening hfirst
  cases hsearch : (placeholders opening).search text first with
  | none =>
      rw [hsearch] at hfind
      rw [next_of_none hsearch, Placeholders.replaceOnAsync_of_none hfind, pure_bind,
        OptionT.lift_pure]
  | some found =>
      rw [hsearch] at hfind
      obtain ⟨-, -, hstop⟩ := Sought.search_eq_some hsearch
      have hbounds := (placeholders opening).bounds hstop
      rw [next_of_some hsearch, substring_of_encloses (encloses_placeholders hopening) hstop,
        Placeholders.replaceOnAsync_of_some hfind, resume_eq hopening hstop]
      have hrest (replacement : Str) := next_placeholders hopening callback
        (builder ++ Slices.between first found.1 text ++ replacement) hbounds.2
      simp only [hrest]
      apply OptionT.ext
      simp [List.append_assoc]
termination_by text.length + 1 - first
decreasing_by
  rw [← resume_eq hopening hstop]
  exact Sought.search_decreases hsearch

/-- The later answers of the callbacks are put where the recursion puts them. -/
theorem replaceOnAsync_placeholders (hopening : 2 ≤ opening.length) (callback : Str → StateM σ Str)
    (text : Str) :
    replaceOnAsync (placeholders opening) text 2 callback =
      OptionT.lift (Placeholders.replaceOnAsync opening callback text) := by
  rw [replaceOnAsync, next_placeholders hopening callback [] (Nat.zero_le _)]
  exact congrArg OptionT.lift (bind_pure _)

theorem replaceLoop_placeholders (callback : Str → Option Str) (builder : Str) {last : Nat}
    {found : Nat × Nat}
    (hsearch : (placeholders "$\x7b".toList).search text last = some found) :
    replaceLoop (placeholders "$\x7b".toList) text 2 callback builder last found =
      (GlobalExpressionLanguage.replaceOn callback (text.drop last)).map (builder ++ ·) := by
  have hopening : 2 ≤ "$\x7b".toList.length := by decide
  obtain ⟨hfirst, -, hstop⟩ := Sought.search_eq_some hsearch
  have hbounds := (placeholders "$\x7b".toList).bounds hstop
  have hresume := resume_eq hopening hstop
  have hfind := find_eq hopening (hfirst.trans (hbounds.1.trans hbounds.2))
  rw [hsearch] at hfind
  rw [GlobalExpressionLanguage.replaceOn_of_some hfind]
  cases hnext : (placeholders "$\x7b".toList).search text (Sought.resume found) with
  | none =>
      have hrest := find_eq hopening hbounds.2
      rw [← hresume, hnext, hresume] at hrest
      rw [replaceLoop_of_none hnext,
        substring_of_encloses (encloses_placeholders hopening) hstop, Option.bind_some,
        GlobalExpressionLanguage.replaceOn_of_none hrest]
      cases callback (expression text 2 found) with
      | none => rfl
      | some replacement => simp
  | some following =>
      have hnext' := hnext
      rw [hresume] at hnext'
      have hloop (replacement : Str) := replaceLoop_placeholders callback
        (builder ++ Slices.between last found.1 text ++ replacement) hnext'
      rw [replaceLoop_of_some hnext,
        substring_of_encloses (encloses_placeholders hopening) hstop, Option.bind_some]
      cases callback (expression text 2 found) with
      | none => rfl
      | some replacement =>
          rw [Option.bind_some, Option.bind_some, hloop, Option.map_map]
          congr 1
          funext rest
          simp
termination_by text.length + 1 - last
decreasing_by
  rw [← resume_eq (by decide) (Sought.search_eq_some hsearch).2.2]
  exact Sought.search_decreases hsearch

theorem replaceOn_placeholders (callback : Str → Option Str) (text : Str) :
    replaceOn (placeholders "$\x7b".toList) text 2 callback =
      GlobalExpressionLanguage.replaceOn callback text := by
  cases hsearch : (placeholders "$\x7b".toList).search text 0 with
  | none =>
      have hopening : 2 ≤ "$\x7b".toList.length := by decide
      have hfind := find_eq hopening (Nat.zero_le text.length)
      rw [hsearch, List.drop_zero] at hfind
      rw [replaceOn, hsearch, GlobalExpressionLanguage.replaceOn_of_none hfind]
  | some found =>
      rw [replaceOn, hsearch]
      show replaceLoop _ _ _ _ _ _ _ = _
      rw [replaceLoop_placeholders callback [] hsearch]
      exact Option.map_id'

/-- Both loops give what the recursions give. -/
theorem loops_placeholders (callback : Str → Option Str) (later : Str → StateM σ Str)
    (text : Str) :
    replaceOn (placeholders "$\x7b".toList) text 2 callback =
        GlobalExpressionLanguage.replaceOn callback text ∧
      replaceOnAsync (placeholders "$\x7b".toList) text 2 later =
        OptionT.lift (Placeholders.replaceOnAsync "$\x7b".toList later text) :=
  ⟨replaceOn_placeholders callback text, replaceOnAsync_placeholders (by decide) later text⟩

/-- Two expressions, the second with a dollar sign. -/
theorem replaced_once_of_expressions :
    ReplacedOnce (placeholders "$\x7b".toList) 2 "a$\x7bb\x7d-$\x7b$c\x7d\x7d".toList :=
  replaced_once (encloses_placeholders (by decide)) _

end Placeholders

end ReplaceAllWith

end Otoroshi
