/-
# Matching a regular expression

A construct of a pattern goes from a state of a match to the states it may leave it in, in the
order in which a backtracking engine tries them. A sequence tries its constructs one behind the
other, an alternation its sequences one after the other, and a match of the whole input is the
first state reached that has read all of it.

Literal characters, their quantifiers and the alternation are read here as the platform reads
them. Every other construct, a class, a group, an escape or an anchor, is the platform's: how far
it goes and what it does to a match, its own quantifier included, is a parameter. The parameter
also reads the whole text behind an embedded flag, which may give any character another meaning.

The laws say which texts the literal characters at the start of a pattern ask for, whatever the
platform does with the rest.
-/

import Mathlib.Algebra.Ring.Nat
import Otoroshi.Foundation.RegexText

namespace Otoroshi

namespace JavaRegex

/-- A match under way: the input, how far it is read, and the span of each group. -/
structure State where
  input : Utf16
  pos : Nat
  spans : Nat → Option (Nat × Nat)

namespace State

def start (input : Utf16) : State := ⟨input, 0, fun _ => none⟩

def rest (s : State) : Utf16 := s.input.drop s.pos

/-- `Matcher.group`, for the group opened at a place of the source. -/
def group (s : State) (opened : Nat) : Option Utf16 :=
  (s.spans opened).map fun span => (s.input.take span.2).drop span.1

end State

/-- What a construct does to a match: the states it may leave it in, the first choice first. -/
abbrev Construct := State → List State

/-- The constructs of a sequence, each from where the one before it left the match. -/
def runAll : List Construct → Construct
  | [], s => [s]
  | construct :: constructs, s => (construct s).flatMap (runAll constructs)

/-! ## Quantifiers -/

inductive Greed
  | greedy
  | reluctant
  | possessive
  deriving DecidableEq

/-- A quantifier, without an upper bound where `most` is `none`. -/
structure Closure where
  least : Nat
  most : Option Nat
  greed : Greed
  deriving DecidableEq

/-- No quantifier. -/
def Closure.once : Closure := ⟨1, some 1, .greedy⟩

/-- The mark behind a quantifier, and its length. -/
def readGreed : List Token → Greed × Nat
  | [] => (.greedy, 0)
  | t :: _ =>
      if t.isChar '?' then (.reluctant, 1)
      else if t.isChar '+' then (.possessive, 1)
      else (.greedy, 0)

/-- The digits some tokens start with. -/
def leadingDigits (ts : List Token) : List Nat :=
  (ts.takeWhile fun t => (digit? t).isSome).filterMap digit?

/-- The number of some digits, when it fits an `int`. -/
def repetitions (digits : List Nat) : Option Nat :=
  let n := digits.foldl (fun n d => n * 10 + d) 0
  if n < 2 ^ 31 then some n else none

/-- The bounds between braces, behind the opening one, and their length with the closing one. -/
def readBounds (ts : List Token) : Option (Nat × Option Nat × Nat) := do
  let digits := leadingDigits ts
  if digits.isEmpty then none
  let least ← repetitions digits
  match ts.drop digits.length with
  | [] => none
  | t :: more =>
      if t.isChar '\x7d' then some (least, some least, digits.length + 1)
      else if t.isChar ',' then
        let others := leadingDigits more
        let most ← repetitions others
        match more.drop others.length with
        | [] => none
        | u :: _ =>
            if !u.isChar '\x7d' then none
            else if others.isEmpty then some (least, none, digits.length + 2)
            else if most < least then none
            else some (least, some most, digits.length + 1 + others.length + 1)
      else none

/-- A quantifier whose own text is read, with the mark behind it. -/
def Closure.marked (least : Nat) (most : Option Nat) (width : Nat) (behind : List Token) :
    Closure × Nat :=
  (⟨least, most, (readGreed behind).1⟩, width + (readGreed behind).2)

/-- `closure`: the quantifier some tokens start with and its length, `none` on a malformed one. -/
def closure : List Token → Option (Closure × Nat)
  | [] => some (.once, 0)
  | t :: rest =>
      if t.isChar '?' then some (Closure.marked 0 (some 1) 1 rest)
      else if t.isChar '*' then some (Closure.marked 0 none 1 rest)
      else if t.isChar '+' then some (Closure.marked 1 none 1 rest)
      else if t.isChar '\x7b' then
        (readBounds rest).map fun (least, most, width) =>
          Closure.marked least most (width + 1) (rest.drop width)
      else some (.once, 0)

/-! ## Literals -/

/-- How often a code point stands at a match, one copy behind the other. -/
def copies (p : CodePoint) (s : State) : Nat := ((decode s.rest).takeWhile (· = p)).length

/-- The numbers of copies that a quantifier takes, the first choice first. -/
def Closure.choices (q : Closure) (available : Nat) : List Nat :=
  let most := min available (q.most.getD available)
  if most < q.least then []
  else match q.greed with
    | .greedy => (List.range' q.least (most + 1 - q.least)).reverse
    | .reluctant => List.range' q.least (most + 1 - q.least)
    | .possessive => [most]

/-- A quantified literal code point. -/
def literal (p : CodePoint) (q : Closure) : Construct := fun s =>
  (q.choices (copies p s)).map fun n => { s with pos := s.pos + n * p.units.length }

/-! ## Patterns -/

/-- The constructs that are the platform's. -/
structure Platform where
  /-- The embedded flags in force, once there are some. -/
  Mode : Type
  /-- The construct that starts at a token: what it does, how many more tokens it takes, and the
  flags behind it. -/
  read : Option Mode → Token → List Token → Option (Construct × Nat × Option Mode)

/-- One turn of `sequence`, outside of embedded flags: a quantifier stands behind something, and
a repetition behind nothing repeats the empty text. -/
def readPlain (P : Platform) (t : Token) (rest : List Token) :
    Option (Construct × Nat × Option P.Mode) :=
  if t.isChar '?' || t.isChar '*' || t.isChar '+' then none
  else if t.isChar '\x7b' then
    (closure (t :: rest)).map fun q => (fun s => [s], q.2 - 1, none)
  else if t.isChar '\\' || t.isChar '[' || t.isChar '(' || t.isChar '.' || t.isChar '^' ||
      t.isChar '$' then P.read none t rest
  else (closure rest).map fun q => (literal t.point q.1, q.2, none)

/-- One turn of `sequence`. -/
def readConstruct (P : Platform) (mode : Option P.Mode) (t : Token) (rest : List Token) :
    Option (Construct × Nat × Option P.Mode) :=
  match mode with
  | none => readPlain P t rest
  | some _ => P.read mode t rest

/-- A construct in front of the first alternative. -/
def attach (construct : Construct) : List (List Construct) → List (List Construct)
  | [] => [[construct]]
  | first :: others => (construct :: first) :: others

/-- `expr`: the alternatives of a pattern. The number counts the tokens that the last construct
still takes. -/
def expr (P : Platform) : Nat → Option P.Mode → List Token → Option (List (List Construct))
  | _, _, [] => some [[]]
  | taken + 1, mode, _ :: rest => expr P taken mode rest
  | 0, mode, t :: rest =>
      if t.isChar '|' then (expr P 0 mode rest).map ([] :: ·)
      else if t.isChar ')' then none
      else match readConstruct P mode t rest with
        | none => none
        | some (construct, width, next) => (expr P width next rest).map (attach construct)

/-- A compiled pattern: its alternatives, and its capturing groups by the place of their
parenthesis. -/
structure Pattern where
  alternatives : List (List Construct)
  groups : List Nat

/-- `Pattern.compile`, `none` on a text that it refuses. -/
def Pattern.compile (P : Platform) (source : Utf16) : Option Pattern :=
  (expr P 0 none (tokens source)).map fun alternatives =>
    ⟨alternatives, JavaRegex.groups source⟩

/-- `Regex.unapplySeq`: the groups of a match of the whole input. -/
def Pattern.unapplySeq (pattern : Pattern) (input : Utf16) : Option (List (Option Utf16)) :=
  ((pattern.alternatives.flatMap fun constructs => runAll constructs (.start input)).find?
      fun s => s.pos = input.length).map fun s =>
    pattern.groups.map s.group

/-- The pattern without the construct at `n` of each alternative. -/
def Pattern.without (pattern : Pattern) (n : Nat) : Pattern :=
  { pattern with alternatives := pattern.alternatives.map (·.eraseIdx n) }

theorem Pattern.unapplySeq_ne_none_iff {pattern : Pattern} {constructs : List Construct}
    {input : Utf16} (hone : pattern.alternatives = [constructs]) :
    pattern.unapplySeq input ≠ none ↔
      ∃ s ∈ runAll constructs (.start input), s.pos = input.length := by
  rw [unapplySeq, hone, List.flatMap_singleton, ne_eq, Option.map_eq_none_iff, List.find?_eq_none]
  simp

/-- A group of any characters but line separators, as many as possible first. -/
def anyGroup (opened : Nat) : Construct := fun s =>
  let available := (decode s.rest).takeWhile fun p => !isLineSeparator ⟨false, false⟩ ⟨none, p⟩
  (List.range (available.length + 1)).reverse.map fun n =>
    let stop := s.pos + ((available.take n).flatMap CodePoint.units).length
    { s with
      pos := stop
      spans := fun k => if k = opened then some (s.pos, stop) else s.spans k }

/-- A small platform for executions on fixed inputs. It reads the group `(.*)` without a quantifier
and refuses every other construct. -/
def Platform.anyGroups : Platform where
  Mode := Empty
  read _ t rest :=
    if t.isChar '(' && (rest.take 3).map Token.point == [.ofChar '.', .ofChar '*', .ofChar ')'] &&
        closure (rest.drop 3) == some (.once, 0) then
      some (anyGroup (t.origin.getD 0), 3, none)
    else none

/-! ## What the literals at the start ask for -/

/-- Wherever the construct gets anywhere, the text stands next in the input. -/
def Construct.Asks (construct : Construct) (text : Utf16) : Prop :=
  ∀ s, construct s ≠ [] → text <+: s.rest

namespace State

theorem rest_start (input : Utf16) : (start input).rest = input := rfl

theorem rest_advance (s : State) (n : Nat) :
    ({ s with pos := s.pos + n } : State).rest = s.rest.drop n := by
  simp [rest, List.drop_drop]

end State

theorem prefix_of_copies_pos {p : CodePoint} {s : State} (h : 0 < copies p s) :
    p.units <+: s.rest := by
  cases hread : decode s.rest with
  | nil => simp [copies, hread] at h
  | cons first points =>
      have hfirst : first = p := by
        by_contra hne
        simp [copies, hread, hne] at h
      subst hfirst
      have hunits : [first].flatMap CodePoint.units <+: s.rest := CodePoint.units_prefix hread
      simpa using hunits

theorem choices_eq_nil {q : Closure} (h : 0 < q.least) : q.choices 0 = [] := by
  simp [Closure.choices, h]

theorem choices_once (available : Nat) : Closure.once.choices (available + 1) = [1] := by
  have hmin : min (available + 1) 1 = 1 := Nat.min_eq_right (Nat.le_add_left 1 available)
  show (if min (available + 1) 1 < 1 then [] else _) = [1]
  rw [hmin, if_neg (lt_irrefl 1)]
  simp [Closure.once, hmin]

theorem asks_literal {p : CodePoint} {q : Closure} (h : 0 < q.least) :
    Construct.Asks (literal p q) p.units := by
  intro s hs
  apply prefix_of_copies_pos
  by_contra hnone
  apply hs
  rw [literal, Nat.eq_zero_of_not_pos hnone, choices_eq_nil h, List.map_nil]

/-- An unquantified literal takes its own units and nothing else. -/
theorem mem_literal_once {p : CodePoint} {s s' : State} (h : s' ∈ literal p .once s) :
    p.units <+: s.rest ∧ s' = { s with pos := s.pos + p.units.length } := by
  refine ⟨asks_literal Nat.one_pos s (List.ne_nil_of_mem h), ?_⟩
  obtain ⟨n, hn, rfl⟩ := List.mem_map.mp h
  have hone : n = 1 := by
    cases havailable : copies p s with
    | zero =>
        rw [havailable, choices_eq_nil Nat.one_pos] at hn
        cases hn
    | succ available =>
        rw [havailable, choices_once] at hn
        exact List.mem_singleton.mp hn
  rw [hone, Nat.one_mul]

theorem asks_runAll_cons {construct : Construct} {constructs : List Construct} {text : Utf16}
    (h : construct.Asks text) : Construct.Asks (runAll (construct :: constructs)) text := by
  intro s hs
  apply h
  intro hnil
  apply hs
  rw [runAll, hnil, List.flatMap_nil]

theorem runAll_append (constructs others : List Construct) (s : State) :
    runAll (constructs ++ others) s = (runAll constructs s).flatMap (runAll others) := by
  induction constructs generalizing s with
  | nil => simp [runAll]
  | cons construct constructs ih =>
      rw [List.cons_append, runAll, runAll, List.flatMap_assoc]
      exact List.flatMap_congr fun next _ => ih next

/-- Literals leave a match behind their units. -/
theorem rest_of_mem_literals {points : List CodePoint} {s s' : State}
    (h : s' ∈ runAll (points.map (literal · .once)) s) :
    s.rest = points.flatMap CodePoint.units ++ s'.rest := by
  induction points generalizing s with
  | nil => rw [List.mem_singleton.mp h, List.flatMap_nil, List.nil_append]
  | cons p points ih =>
      obtain ⟨next, hnext, hlast⟩ := List.mem_flatMap.mp h
      obtain ⟨⟨behind, hbehind⟩, rfl⟩ := mem_literal_once hnext
      have hrest := ih hlast
      rw [State.rest_advance, ← hbehind, List.drop_left] at hrest
      rw [List.flatMap_cons, List.append_assoc, ← hrest, hbehind]

/-- Literals ask for their own units, and then for what the rest asks for. -/
theorem asks_literals (points : List CodePoint) {constructs : List Construct} {text : Utf16}
    (h : Construct.Asks (runAll constructs) text) :
    Construct.Asks (runAll (points.map (literal · .once) ++ constructs))
      (points.flatMap CodePoint.units ++ text) := by
  intro s hs
  obtain ⟨last, hlast⟩ := List.exists_mem_of_ne_nil _ hs
  rw [runAll_append] at hlast
  obtain ⟨next, hnext, hlast⟩ := List.mem_flatMap.mp hlast
  rw [rest_of_mem_literals hnext]
  exact (List.prefix_append_right_inj _).mpr (h next (List.ne_nil_of_mem hlast))

theorem literal_of_copies_eq_zero {p : CodePoint} {q : Closure} {s : State} (hq : q.least = 0)
    (hs : copies p s = 0) : literal p q s = [s] := by
  have hchoices : q.choices 0 = [0] := by
    cases hgreed : q.greed with
    | greedy => simp [Closure.choices, hq, hgreed]
    | reluctant => simp [Closure.choices, hq, hgreed]
    | possessive => simp [Closure.choices, hq, hgreed]
  rw [literal, hs, hchoices, List.map_singleton, Nat.zero_mul, Nat.add_zero]

/-- Where an optional literal does not stand, leaving it out of the pattern changes nothing. -/
theorem runAll_of_optional {points : List CodePoint} {last : CodePoint} {q : Closure}
    {constructs : List Construct} {s : State} (hq : q.least = 0)
    (hs : ¬ points.flatMap CodePoint.units ++ last.units <+: s.rest) :
    runAll (points.map (literal · .once) ++ literal last q :: constructs) s =
      runAll (points.map (literal · .once) ++ constructs) s := by
  rw [runAll_append, runAll_append]
  refine List.flatMap_congr fun next hnext => ?_
  have hrest := rest_of_mem_literals hnext
  have hnone : copies last next = 0 := by
    by_contra hsome
    apply hs
    rw [hrest]
    exact (List.prefix_append_right_inj _).mpr (prefix_of_copies_pos (Nat.pos_of_ne_zero hsome))
  rw [runAll, literal_of_copies_eq_zero hq hnone, List.flatMap_singleton]

/-! ## Reading the literals at the start -/

/-- A character that stands for itself wherever it is written. -/
def Token.IsLiteral (t : Token) : Prop :=
  ∀ c ∈ "\\.[]()\x7b\x7d*+?^$|".toList, t.isChar c = false

variable {P : Platform}

theorem Token.IsLiteral.isChar {t : Token} (h : t.IsLiteral) (c : Char)
    (hc : c ∈ "\\.[]()\x7b\x7d*+?^$|".toList := by decide) : t.isChar c = false :=
  h c hc

theorem closure_of_isLiteral {t : Token} (h : t.IsLiteral) (rest : List Token) :
    closure (t :: rest) = some (.once, 0) := by
  simp [closure, h.isChar '?', h.isChar '*', h.isChar '+', h.isChar '\x7b']

theorem readConstruct_of_isLiteral {t : Token} (h : t.IsLiteral) (rest : List Token) :
    readConstruct P none t rest = (closure rest).map fun q => (literal t.point q.1, q.2, none) := by
  simp [readConstruct, readPlain, h.isChar '?', h.isChar '*', h.isChar '+', h.isChar '\x7b',
    h.isChar '\\', h.isChar '[', h.isChar '(', h.isChar '.', h.isChar '^', h.isChar '$']

theorem expr_of_isLiteral {t : Token} (h : t.IsLiteral) {rest : List Token}
    {alternatives : List (List Construct)} (hread : expr P 0 none (t :: rest) = some alternatives) :
    ∃ q width next, closure rest = some (q, width) ∧ expr P width none rest = some next ∧
      alternatives = attach (literal t.point q) next := by
  rw [expr, readConstruct_of_isLiteral h] at hread
  simp only [h.isChar '|', h.isChar ')', Bool.false_eq_true, if_false] at hread
  cases hq : closure rest with
  | none => simp [hq] at hread
  | some q =>
      simp only [hq, Option.map_some] at hread
      obtain ⟨next, hnext, halternatives⟩ := Option.map_eq_some_iff.mp hread
      exact ⟨q.1, q.2, next, rfl, hnext, halternatives.symm⟩

theorem attach_eq (construct : Construct) (next : List (List Construct)) :
    ∃ first others, attach construct next = (construct :: first) :: others := by
  cases next with
  | nil => exact ⟨[], [], rfl⟩
  | cons first others => exact ⟨first, others, rfl⟩

/-- A pattern that starts with literals reads each of them by itself, the last one with the
quantifier behind them. -/
theorem expr_of_literals {before : List Token} {last : Token} {behind : List Token}
    (hbefore : ∀ t ∈ before, t.IsLiteral) (hlast : last.IsLiteral)
    {alternatives : List (List Construct)}
    (hread : expr P 0 none (before ++ last :: behind) = some alternatives) :
    ∃ q width first others, closure behind = some (q, width) ∧
      alternatives = ((before.map Token.point).map (literal · .once) ++
        literal last.point q :: first) :: others := by
  induction before generalizing alternatives with
  | nil =>
      obtain ⟨q, width, next, hq, -, rfl⟩ := expr_of_isLiteral hlast hread
      obtain ⟨first, others, hattach⟩ := attach_eq (literal last.point q) next
      exact ⟨q, width, first, others, hq, hattach⟩
  | cons t before ih =>
      obtain ⟨q, width, next, hq, hnext, rfl⟩ :=
        expr_of_isLiteral (hbefore t List.mem_cons_self) hread
      have honce : closure (before ++ last :: behind) = some (.once, 0) := by
        cases before with
        | nil => exact closure_of_isLiteral hlast behind
        | cons u before =>
            exact closure_of_isLiteral (hbefore u (List.mem_cons_of_mem _ List.mem_cons_self)) _
      obtain ⟨rfl, rfl⟩ := Prod.mk.inj (Option.some.inj (honce.symm.trans hq))
      obtain ⟨q, width, first, others, hbehind, rfl⟩ :=
        ih (fun u hu => hbefore u (List.mem_cons_of_mem _ hu)) hnext
      exact ⟨q, width, _, others, hbehind, rfl⟩

/-- Without a bar there is one alternative. -/
theorem exists_eq_singleton_of_expr {taken : Nat} {mode : Option P.Mode} {ts : List Token}
    (hbar : ∀ t ∈ ts, t.isChar '|' = false) {alternatives : List (List Construct)}
    (hread : expr P taken mode ts = some alternatives) : ∃ first, alternatives = [first] := by
  induction ts generalizing taken mode alternatives with
  | nil =>
      rw [expr] at hread
      exact ⟨[], (Option.some.inj hread).symm⟩
  | cons t rest ih =>
      have hrest : ∀ u ∈ rest, u.isChar '|' = false := fun u hu =>
        hbar u (List.mem_cons_of_mem _ hu)
      cases taken with
      | succ taken => exact ih hrest hread
      | zero =>
          rw [expr, if_neg (by simp [hbar t List.mem_cons_self])] at hread
          split_ifs at hread
          cases hconstruct : readConstruct P mode t rest with
          | none => simp [hconstruct] at hread
          | some reading =>
              obtain ⟨construct, width, next⟩ := reading
              simp only [hconstruct] at hread
              obtain ⟨alternatives, halternatives, rfl⟩ := Option.map_eq_some_iff.mp hread
              obtain ⟨first, rfl⟩ := ih hrest halternatives
              exact ⟨construct :: first, rfl⟩

/-- A pattern without a bar that starts with literals is these, the quantified one and the
rest. -/
theorem exists_eq_literals {before : List Token} {last : Token} {behind : List Token}
    (hbefore : ∀ t ∈ before, t.IsLiteral) (hlast : last.IsLiteral)
    (hbar : ∀ t ∈ before ++ last :: behind, t.isChar '|' = false)
    {alternatives : List (List Construct)}
    (hread : expr P 0 none (before ++ last :: behind) = some alternatives) :
    ∃ q width constructs, closure behind = some (q, width) ∧
      alternatives = [(before.map Token.point).map (literal · .once) ++
        literal last.point q :: constructs] := by
  obtain ⟨q, width, first, others, hq, rfl⟩ := expr_of_literals hbefore hlast hread
  obtain ⟨constructs, hone⟩ := exists_eq_singleton_of_expr hbar hread
  obtain ⟨rfl, rfl⟩ := List.cons.inj hone
  exact ⟨q, width, first, hq, rfl⟩

/-- An input that a pattern of one alternative matches starts with what it asks for. -/
theorem Pattern.prefix_of_unapplySeq {pattern : Pattern} {constructs : List Construct}
    {text input : Utf16} (hone : pattern.alternatives = [constructs])
    (h : Construct.Asks (runAll constructs) text) (hmatch : pattern.unapplySeq input ≠ none) :
    text <+: input := by
  obtain ⟨s, hs, -⟩ := (Pattern.unapplySeq_ne_none_iff hone).mp hmatch
  exact h (.start input) (List.ne_nil_of_mem hs)

end JavaRegex

end Otoroshi
