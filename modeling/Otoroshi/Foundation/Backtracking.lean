/-
# Backtracking patterns

A pattern goes from a state of a match to the states it may leave it in, the
first choice first. A whole match is any of them that has read everything; a
search takes the first one at the leftmost place where there is one, and goes on
behind it.

So two questions come apart. Which texts match as a whole does not depend on the
order of the choices: it is the language of the pattern (`matchesAll_iff`). What a
search finds does, and is followed choice by choice (`head?_seq`, `head?_either`,
`head?_manyOne`).
-/

import Mathlib.Computability.Language

namespace Otoroshi

/-- A regular expression over an alphabet. Classes of characters are predicates, and a
repetition takes as much as it can. -/
inductive Backtracking (α : Type)
  | one (accepts : α → Bool)
  | seq (first second : Backtracking α)
  | either (first second : Backtracking α)
  | many (body : Backtracking α)
  | group (index : Nat) (body : Backtracking α)

namespace Backtracking

variable {α : Type}

/-- A match under way: what is still to be read, and what the groups hold. -/
structure Match (α : Type) where
  rest : List α
  groups : Nat → Option (List α)

namespace Match

def start (text : List α) : Match α := ⟨text, fun _ => none⟩

/-- `Match.group`, where `none` stands for `null`. -/
def group (m : Match α) (index : Nat) : Option (List α) := m.groups index

/-- What was read since an earlier state. -/
def readSince (m before : Match α) : List α :=
  before.rest.take (before.rest.length - m.rest.length)

def capture (m before : Match α) (index : Nat) : Match α :=
  { m with groups := Function.update m.groups index (some (m.readSince before)) }

end Match

/-- The rounds of a repetition, the longest first. A round that reads nothing is not one. -/
def rounds (body : Match α → List (Match α)) : Nat → Match α → List (Match α)
  | 0, m => [m]
  | n + 1, m =>
      ((body m).filter fun after => after.rest.length < m.rest.length).flatMap (rounds body n) ++
        [m]

/-- The states a pattern may leave a match in, in the order they are tried. -/
def runs : Backtracking α → Match α → List (Match α)
  | one accepts, m =>
      match m.rest with
      | [] => []
      | a :: rest => if accepts a then [{ m with rest }] else []
  | seq first second, m => (first.runs m).flatMap second.runs
  | either first second, m => first.runs m ++ second.runs m
  | many body, m => rounds body.runs m.rest.length m
  | group index body, m => (body.runs m).map fun after => after.capture m index

attribute [grind =] runs

/-- One or more. -/
def plus (body : Backtracking α) : Backtracking α := seq body (many body)

/-- `Regex.matches`: some choice reads all of the text. -/
def matchesAll (pattern : Backtracking α) (text : List α) : Bool :=
  (pattern.runs (.start text)).any fun m => m.rest.isEmpty

/-- The matches behind the next `skipped` characters. -/
def findAllAfter (pattern : Backtracking α) : Nat → List α → List (Match α)
  | _ + 1, [] => []
  | skipped + 1, _ :: text => findAllAfter pattern skipped text
  | 0, [] => (pattern.runs (.start [])).head?.toList
  | 0, a :: text =>
      match (pattern.runs (.start (a :: text))).head? with
      | some m => m :: findAllAfter pattern (text.length - m.rest.length) text
      | none => findAllAfter pattern 0 text

/-- `Regex.findAllMatchIn`: the matches from left to right, each behind the one before. -/
def findAll (pattern : Backtracking α) (text : List α) : List (Match α) :=
  findAllAfter pattern 0 text

/-! ## Which texts match -/

/-- The texts that a pattern stands for. -/
def language : Backtracking α → Language α
  | one accepts => { text | ∃ a, accepts a = true ∧ text = [a] }
  | seq first second => first.language * second.language
  | either first second => first.language + second.language
  | many body => KStar.kstar body.language
  | group _ body => body.language

private theorem exists_of_mem_rounds {body : Backtracking α}
    (hbody : ∀ m, ∀ after ∈ body.runs m, ∃ read ∈ body.language, m.rest = read ++ after.rest)
    {n : Nat} {m after : Match α} (h : after ∈ rounds body.runs n m) :
    ∃ read ∈ KStar.kstar body.language, m.rest = read ++ after.rest := by
  induction n generalizing m with
  | zero =>
      rw [rounds, List.mem_singleton] at h
      exact ⟨[], Language.nil_mem_kstar _, by rw [h, List.nil_append]⟩
  | succ n ih =>
      rw [rounds, List.mem_append, List.mem_singleton] at h
      rcases h with h | rfl
      · obtain ⟨middle, hmiddle, hrest⟩ := List.mem_flatMap.mp h
        obtain ⟨read, hread, hm⟩ := hbody m middle (List.mem_filter.mp hmiddle).1
        obtain ⟨more, hmore, hlast⟩ := ih hrest
        refine ⟨read ++ more, ?_, by rw [hm, hlast, List.append_assoc]⟩
        rw [← Language.one_add_self_mul_kstar_eq_kstar]
        exact Or.inr (Language.append_mem_mul hread hmore)
      · exact ⟨[], Language.nil_mem_kstar _, rfl⟩

/-- What a choice has read is a text of the language. -/
theorem exists_of_mem_runs {pattern : Backtracking α} {m after : Match α}
    (h : after ∈ pattern.runs m) : ∃ read ∈ pattern.language, m.rest = read ++ after.rest := by
  induction pattern generalizing m after with
  | one accepts =>
      rw [runs] at h
      split at h
      · cases h
      · rename_i a rest hrest
        split at h
        · rename_i ha
          rw [List.mem_singleton] at h
          subst h
          exact ⟨[a], ⟨a, ha, rfl⟩, hrest⟩
        · cases h
  | seq first second ihfirst ihsecond =>
      obtain ⟨middle, hmiddle, hafter⟩ := List.mem_flatMap.mp h
      obtain ⟨read, hread, hm⟩ := ihfirst hmiddle
      obtain ⟨more, hmore, hlast⟩ := ihsecond hafter
      exact ⟨read ++ more, Language.append_mem_mul hread hmore,
        by rw [hm, hlast, List.append_assoc]⟩
  | either first second ihfirst ihsecond =>
      rcases List.mem_append.mp h with h | h
      · obtain ⟨read, hread, hm⟩ := ihfirst h
        exact ⟨read, Or.inl hread, hm⟩
      · obtain ⟨read, hread, hm⟩ := ihsecond h
        exact ⟨read, Or.inr hread, hm⟩
  | many body ih => exact exists_of_mem_rounds (fun m after hafter => ih hafter) h
  | group index body ih =>
      obtain ⟨inner, hinner, rfl⟩ := List.mem_map.mp h
      obtain ⟨read, hread, hm⟩ := ih hinner
      exact ⟨read, hread, hm⟩

private theorem exists_mem_rounds {body : Backtracking α} {words : List (List α)}
    (hbody : ∀ read ∈ body.language, ∀ m rest, m.rest = read ++ rest →
      ∃ after ∈ body.runs m, after.rest = rest)
    (hwords : ∀ word ∈ words, word ∈ body.language ∧ word ≠ []) {n : Nat} {m : Match α}
    {rest : List α} (hm : m.rest = words.flatten ++ rest) (hn : m.rest.length ≤ n) :
    ∃ after ∈ rounds body.runs n m, after.rest = rest := by
  induction words generalizing n m with
  | nil =>
      refine ⟨m, ?_, hm⟩
      cases n with
      | zero => exact List.mem_singleton_self m
      | succ n => exact List.mem_append_right _ (List.mem_singleton_self m)
  | cons word words ih =>
      rw [List.forall_mem_cons] at hwords
      rw [List.flatten_cons, List.append_assoc] at hm
      obtain ⟨middle, hmiddle, hrest⟩ := hbody word hwords.1.1 m _ hm
      have hword : 0 < word.length := List.length_pos_iff.mpr hwords.1.2
      have hless : middle.rest.length < m.rest.length := by
        rw [hm, hrest]
        simp only [List.length_append]
        omega
      obtain ⟨n, rfl⟩ : ∃ k, n = k + 1 := ⟨n - 1, by omega⟩
      obtain ⟨after, hafter, hlast⟩ := ih hwords.2 hrest (Nat.le_of_lt_succ
        (Nat.lt_of_lt_of_le hless hn))
      exact ⟨after, List.mem_append_left _ (List.mem_flatMap.mpr
        ⟨middle, List.mem_filter.mpr ⟨hmiddle, decide_eq_true hless⟩, hafter⟩), hlast⟩

/-- Every text of the language is read by some choice. -/
theorem exists_mem_runs {pattern : Backtracking α} {read : List α} (h : read ∈ pattern.language)
    {m : Match α} {rest : List α} (hm : m.rest = read ++ rest) :
    ∃ after ∈ pattern.runs m, after.rest = rest := by
  induction pattern generalizing read m rest with
  | one accepts =>
      obtain ⟨a, ha, rfl⟩ := h
      refine ⟨{ m with rest }, ?_, rfl⟩
      simp [runs, hm, ha]
  | seq first second ihfirst ihsecond =>
      obtain ⟨before, hbefore, behind, hbehind, rfl⟩ := Language.mem_mul.mp h
      rw [List.append_assoc] at hm
      obtain ⟨middle, hmiddle, hrest⟩ := ihfirst hbefore hm
      obtain ⟨after, hafter, hlast⟩ := ihsecond hbehind hrest
      exact ⟨after, List.mem_flatMap.mpr ⟨middle, hmiddle, hafter⟩, hlast⟩
  | either first second ihfirst ihsecond =>
      rcases h with h | h
      · obtain ⟨after, hafter, hlast⟩ := ihfirst h hm
        exact ⟨after, List.mem_append_left _ hafter, hlast⟩
      · obtain ⟨after, hafter, hlast⟩ := ihsecond h hm
        exact ⟨after, List.mem_append_right _ hafter, hlast⟩
  | many body ih =>
      obtain ⟨words, rfl, hwords⟩ := Language.mem_kstar_iff_exists_nonempty.mp h
      exact exists_mem_rounds (fun read hread m rest hrest => ih hread hrest) hwords hm
        (Nat.le_refl _)
  | group index body ih =>
      obtain ⟨inner, hinner, hlast⟩ := ih h hm
      exact ⟨inner.capture m index, List.mem_map.mpr ⟨inner, hinner, rfl⟩, hlast⟩

/-- A text matches as a whole if and only if it is in the language. -/
theorem matchesAll_iff {pattern : Backtracking α} {text : List α} :
    pattern.matchesAll text = true ↔ text ∈ pattern.language := by
  rw [matchesAll, List.any_eq_true]
  constructor
  · rintro ⟨after, hafter, hrest⟩
    obtain ⟨read, hread, htext⟩ := exists_of_mem_runs hafter
    rw [List.isEmpty_iff.mp hrest, List.append_nil] at htext
    rw [show text = read from htext]
    exact hread
  · intro h
    obtain ⟨after, hafter, hrest⟩ := exists_mem_runs h (m := .start text) (List.append_nil _).symm
    exact ⟨after, hafter, by rw [hrest]; rfl⟩

/-! ## What is tried first -/

variable {m middle last : Match α} {first second : Backtracking α}

theorem head?_one {accepts : α → Bool} {a : α} {rest : List α} (hm : m.rest = a :: rest)
    (ha : accepts a = true) : ((one accepts).runs m).head? = some { m with rest } := by
  simp only [runs, hm, ha, if_true, List.head?_cons]

theorem runs_one_eq_nil {accepts : α → Bool} (h : ∀ a ∈ m.rest.head?, accepts a = false) :
    (one accepts).runs m = [] := by
  rw [runs]
  cases hrest : m.rest with
  | nil => rfl
  | cons a rest =>
      have ha : accepts a = false := h a (by rw [hrest]; rfl)
      simp only [ha, Bool.false_eq_true, if_false]

/-- The first choice of a sequence, where the first choice of its first part can go on. -/
theorem head?_seq (hfirst : (first.runs m).head? = some middle)
    (hsecond : (second.runs middle).head? = some last) :
    ((seq first second).runs m).head? = some last := by
  obtain ⟨others, hothers⟩ := List.head?_eq_some_iff.mp hfirst
  rw [runs, hothers, List.flatMap_cons, List.head?_append, hsecond, Option.some_or]

theorem runs_seq_eq_nil (h : first.runs m = []) : (seq first second).runs m = [] := by
  rw [runs, h, List.flatMap_nil]

theorem head?_either (h : (first.runs m).head? = some last) :
    ((either first second).runs m).head? = some last := by
  rw [runs, List.head?_append, h, Option.some_or]

theorem runs_either (h : first.runs m = []) : (either first second).runs m = second.runs m := by
  rw [runs, h, List.nil_append]

theorem head?_group {index : Nat} {body : Backtracking α} (h : (body.runs m).head? = some last) :
    ((group index body).runs m).head? = some (last.capture m index) := by
  rw [runs, List.head?_map, h, Option.map_some]

/-- A group holds what its body has read. -/
theorem head?_group_read {index : Nat} {body : Backtracking α} {read rest : List α}
    (hm : m.rest = read ++ rest) (h : (body.runs m).head? = some { m with rest }) :
    ((group index body).runs m).head? =
      some { rest, groups := Function.update m.groups index (some read) } := by
  rw [head?_group h, Match.capture, Match.readSince, hm, List.length_append, Nat.add_sub_cancel,
    List.take_left]

/-- A repeated class reads every character that it accepts. -/
theorem head?_manyOne {accepts : α → Bool} {read rest : List α} (hm : m.rest = read ++ rest)
    (hread : ∀ a ∈ read, accepts a = true) (hrest : ∀ a ∈ rest.head?, accepts a = false) :
    ((many (one accepts)).runs m).head? = some { m with rest } := by
  have hrounds : ∀ (read : List α) (n : Nat) (m : Match α), m.rest = read ++ rest →
      (∀ a ∈ read, accepts a = true) → m.rest.length ≤ n →
      (rounds (one accepts).runs n m).head? = some { m with rest } := by
    intro read
    induction read with
    | nil =>
        intro n m hm _ _
        rw [List.nil_append] at hm
        have hsame : m = { m with rest } := by rw [← hm]
        cases n with
        | zero =>
            rw [← hsame]
            rfl
        | succ n =>
            rw [rounds, runs_one_eq_nil (by rw [hm]; exact hrest), ← hsame]
            rfl
    | cons a read ih =>
        intro n m hm hread hn
        rw [List.forall_mem_cons] at hread
        obtain ⟨n, rfl⟩ : ∃ k, n = k + 1 := by
          refine ⟨n - 1, ?_⟩
          rw [hm, List.cons_append, List.length_cons] at hn
          omega
        have hrun : (one accepts).runs m = [{ m with rest := read ++ rest }] := by
          simp [runs, hm, hread.1]
        have hshorter : (read ++ rest).length < m.rest.length := by
          rw [hm, List.cons_append, List.length_cons]
          exact Nat.lt_succ_self _
        rw [rounds, hrun]
        simp only [List.filter_cons, hshorter, decide_true, if_true, List.filter_nil,
          List.flatMap_cons, List.flatMap_nil, List.append_nil, List.head?_append]
        rw [ih n { m with rest := read ++ rest } rfl hread.2 (Nat.le_of_lt_succ
          (Nat.lt_of_lt_of_le hshorter hn)), Option.some_or]
  exact hrounds read m.rest.length m hm hread (Nat.le_refl _)

/-- A class repeated at least once. -/
theorem head?_plusOne {accepts : α → Bool} {read rest : List α} (hm : m.rest = read ++ rest)
    (hne : read ≠ []) (hread : ∀ a ∈ read, accepts a = true)
    (hrest : ∀ a ∈ rest.head?, accepts a = false) :
    ((plus (one accepts)).runs m).head? = some { m with rest } := by
  obtain ⟨a, read, rfl⟩ := List.exists_cons_of_ne_nil hne
  rw [List.forall_mem_cons] at hread
  exact head?_seq (head?_one hm hread.1) (head?_manyOne rfl hread.2 hrest)

/-! ## Searching from left to right -/

private theorem findAllAfter_append {pattern : Backtracking α} (skipped rest : List α) :
    findAllAfter pattern skipped.length (skipped ++ rest) = findAllAfter pattern 0 rest := by
  induction skipped with
  | nil => rfl
  | cons a skipped ih =>
      rw [List.length_cons, List.cons_append, findAllAfter, ih]

/-- A match at the start is the first one, and the search goes on behind it. -/
theorem findAll_of_head? {pattern : Backtracking α} {read rest : List α} {found : Match α}
    (hne : read ≠ []) (hrest : found.rest = rest)
    (h : (pattern.runs (.start (read ++ rest))).head? = some found) :
    pattern.findAll (read ++ rest) = found :: pattern.findAll rest := by
  obtain ⟨a, read, rfl⟩ := List.exists_cons_of_ne_nil hne
  rw [List.cons_append] at h ⊢
  simp only [findAll, findAllAfter, h]
  rw [hrest, List.length_append, Nat.add_sub_cancel, findAllAfter_append]

/-- Where nothing matches the search goes on behind one character. -/
theorem findAll_cons_of_runs_eq_nil {pattern : Backtracking α} {a : α} {text : List α}
    (h : pattern.runs (.start (a :: text)) = []) :
    pattern.findAll (a :: text) = pattern.findAll text := by
  rw [findAll, findAllAfter, h]
  rfl

end Backtracking

end Otoroshi
