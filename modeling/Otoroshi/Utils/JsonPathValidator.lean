/-
# Operators of validators

A validator of a JSON path compares what it has read with a text that may be an operator with
an argument, `Contains(..)` or `Size(..)`. The operators of a value are tried in the order of
the source: the text is recognised without the spaces around it, and the argument is cut out of
the text with the spaces, at an offset that is counted by hand.

`coherent_iff_suits` says for which operators and arguments the argument itself is evaluated,
without an exception, and as the negation of the positive operator.
-/

import Mathlib.Data.List.Infix
import Otoroshi.Foundation.Json
import Otoroshi.Utils.RegexPool

namespace Otoroshi

namespace Validators

/-- The exceptions of a check. -/
inductive CheckException
  | regex (e : JvmException)
  | numberFormat
  | stringIndexOutOfBounds
  deriving DecidableEq

/-- What a check uses of its platform: what the pool of patterns answers for a regular
expression and for a wildcard, digits, the texts of values, and their equality. -/
structure CheckPlatform (E : RegexEngine) where
  regex : Pool E
  wildcard : Pool E
  digit : Char → Option Nat
  stringify : JsValue → Str
  numberText : Rat → Str
  same : JsValue → JsValue → Bool

/-! ## Rules -/

/-- One branch of a check: the operator that it is for, what the text begins with, how many
closing parentheses it ends with, the operators with a longer beginning that it leaves to other
branches, and the offset of the argument. -/
structure Rule (Op : Type) where
  operator : Op
  opening : Str
  closings : Nat := 1
  forms : List Str := []
  offset : Nat

namespace Rule

variable {Op : Type} (rule : Rule Op)

def closing : Str := List.replicate rule.closings ')'

/-- The condition of the branch. -/
def applies (expected : Str) : Bool :=
  startsWith (trim expected) rule.opening && endsWith (trim expected) rule.closing &&
    rule.forms.all fun form => !startsWith (trim expected) (rule.opening ++ form)

/-- `init`, several times. -/
def init : Nat → Str → Except CheckException Str
  | 0, s => .ok s
  | n + 1, s => if s.isEmpty then .error (.regex .emptyInit) else init n s.dropLast

/-- `expected.substring(offset).init`, with an `init` for every closing parenthesis. -/
def cut (expected : Str) : Except CheckException Str :=
  if rule.offset ≤ expected.length then init rule.closings (expected.drop rule.offset)
  else .error .stringIndexOutOfBounds

/-- The text of an operator with an argument, and what may stand around it. -/
def text (lead arg trail : Str) : Str := lead ++ (rule.opening ++ arg ++ rule.closing) ++ trail

end Rule

section Rules

variable {Op : Type}

/-- The operator and the argument that are evaluated. -/
def chosen (rules : List (Rule Op)) (expected : Str) : Option (Op × Except CheckException Str) :=
  (rules.find? (·.applies expected)).map fun rule => (rule.operator, rule.cut expected)

/-- The first branch whose condition holds, or the last `else`. -/
def applyRules (rules : List (Rule Op)) (eval : Op → Str → Except CheckException Bool)
    (otherwise : Bool) (expected : Str) : Except CheckException Bool :=
  match chosen rules expected with
  | some (operator, argument) => argument.bind (eval operator)
  | none => .ok otherwise

end Rules

/-! ## Arrays -/

inductive Comparison
  | eq
  | ne
  | lt
  | gt
  | le
  | ge
  deriving DecidableEq

def Comparison.holds : Comparison → Int → Int → Bool
  | eq, first, second => first == second
  | ne, first, second => first != second
  | lt, first, second => first < second
  | gt, first, second => first > second
  | le, first, second => first ≤ second
  | ge, first, second => first ≥ second

/-- What an argument is: a text, a regular expression or a wildcard. -/
inductive Matching
  | text
  | regex
  | wildcard
  deriving DecidableEq

inductive ArrayOperator
  | size (comparison : Comparison)
  | contains (negated : Bool) (matching : Matching)
  | jsonContains (negated : Bool) (matching : Matching)
  | startsWith (negated : Bool)
  deriving DecidableEq

variable {E : RegexEngine} (P : CheckPlatform E)

/-- `text.toInt`. -/
def toInt (text : Str) : Except CheckException Int :=
  match (parseLong P.digit text).filter fun n => -2 ^ 31 ≤ n && n < 2 ^ 31 with
  | some n => .ok n
  | none => .error .numberFormat

/-- What an argument accepts; a text accepts what `plain` says. -/
def Matching.matcher (plain : Str → Str → Bool) (matching : Matching) (argument : Str) :
    Except CheckException (Str → Bool) :=
  match matching with
  | text => .ok (plain argument)
  | regex => ((P.regex argument).map Regex.matchesValue).mapError .regex
  | wildcard => ((P.wildcard argument).map Regex.matchesValue).mapError .regex

/-- `value.contains(argument)`. -/
def containsText (argument value : Str) : Bool := decide (argument <:+: value)

/-- The item is a string that is accepted. -/
def ofString (accepted : Str → Bool) : JsValue → Bool
  | .string value => accepted value
  | _ => false

/-- What the branches for arrays do with their argument. -/
def evalArray (seq : List JsValue) : ArrayOperator → Str → Except CheckException Bool
  | .size comparison, argument =>
      (toInt P argument).map fun n => comparison.holds seq.length n
  | .contains negated matching, argument =>
      (matching.matcher P (· == ·) argument).map fun accepted =>
        seq.any (ofString accepted) != negated
  | .jsonContains negated matching, argument =>
      (matching.matcher P containsText argument).map fun accepted =>
        seq.any (fun item => accepted (P.stringify item)) != negated
  | .startsWith negated, argument =>
      .ok (seq.all (ofString fun value => Otoroshi.startsWith value argument != negated))

/-- The forms that `Contains` and its like leave to other branches. -/
def forms : List Str := ["Regex(".toList, "Wildcard(".toList]

def arrayRules : List (Rule ArrayOperator) := [
  { operator := .size .eq, opening := "Size(".toList, offset := 5 },
  { operator := .size .ne, opening := "SizeNot(".toList, offset := 8 },
  { operator := .size .lt, opening := "SizeLt(".toList, offset := 7 },
  { operator := .size .gt, opening := "SizeGt(".toList, offset := 7 },
  { operator := .size .le, opening := "SizeLte(".toList, offset := 8 },
  { operator := .size .ge, opening := "SizeGte(".toList, offset := 8 },
  { operator := .contains false .text, opening := "Contains(".toList, forms, offset := 9 },
  { operator := .contains true .text, opening := "ContainsNot(".toList, forms, offset := 12 },
  { operator := .contains false .regex, opening := "Contains(Regex(".toList, closings := 2,
    offset := 15 },
  { operator := .contains false .wildcard, opening := "Contains(Wildcard(".toList, closings := 2,
    offset := 18 },
  { operator := .contains true .regex, opening := "ContainsNot(Regex(".toList, closings := 2,
    offset := 18 },
  { operator := .contains true .wildcard, opening := "ContainsNot(Wildcard(".toList,
    closings := 2, offset := 21 },
  { operator := .jsonContains false .text, opening := "JsonContains(".toList, forms,
    offset := 13 },
  { operator := .jsonContains true .text, opening := "JsonContainsNot(".toList, forms,
    offset := 16 },
  { operator := .jsonContains false .regex, opening := "JsonContains(Regex(".toList,
    closings := 2, offset := 19 },
  { operator := .jsonContains false .wildcard, opening := "JsonContains(Wildcard(".toList,
    closings := 2, offset := 23 },
  { operator := .jsonContains true .regex, opening := "JsonContainsNot(Regex(".toList,
    closings := 2, offset := 23 },
  { operator := .jsonContains true .wildcard, opening := "JsonContainsNot(Wildcard(".toList,
    closings := 2, offset := 25 },
  { operator := .startsWith false, opening := "StartsWith(".toList, offset := 11 },
  { operator := .startsWith true, opening := "DontStartsWith(".toList, offset := 15 }]

/-! ## Strings -/

inductive StringOperator
  | accepts (negated : Bool) (matching : Matching)
  | not
  | containedIn (negated : Bool)
  deriving DecidableEq

/-- What the branches for strings do with their argument. -/
def evalString (v : Str) : StringOperator → Str → Except CheckException Bool
  | .accepts negated matching, argument =>
      (matching.matcher P containsText argument).map fun accepted => accepted v != negated
  | .not, argument => .ok (v != argument)
  | .containedIn negated, argument =>
      .ok (((split ',' argument).map trim).contains v != negated)

def stringRules : List (Rule StringOperator) := [
  { operator := .accepts false .regex, opening := "Regex(".toList, offset := 6 },
  { operator := .accepts false .wildcard, opening := "Wildcard(".toList, offset := 9 },
  { operator := .accepts true .regex, opening := "RegexNot(".toList, offset := 9 },
  { operator := .accepts true .wildcard, opening := "WildcardNot(".toList, offset := 12 },
  { operator := .accepts false .text, opening := "Contains(".toList, offset := 9 },
  { operator := .accepts true .text, opening := "ContainsNot(".toList, offset := 12 },
  { operator := .not, opening := "Not(".toList, offset := 4 },
  { operator := .containedIn false, opening := "ContainedIn(".toList, offset := 12 },
  { operator := .containedIn true, opening := "NotContainedIn(".toList, offset := 15 }]

/-! ## Checks -/

structure JsonPathValidator where
  path : Str
  value : JsValue
  error : Option Str := none

namespace JsonPathValidator

def isDefined : Str := "IsDefined()".toList

def notDefined : Str := "NotDefined()".toList

/-- `value.asOptString.getOrElse("")`. -/
def maybeExpr (validator : JsonPathValidator) : Str :=
  match validator.value with
  | .string value => value
  | _ => []

def checkArray (seq : List JsValue) (expected : Str) : Except CheckException Bool :=
  applyRules arrayRules (evalArray P seq) (P.stringify (.array seq) == expected) expected

def checkString (v expected : Str) : Except CheckException Bool :=
  applyRules stringRules (evalString P v) (v == expected) expected

/-- The check of a value that was read. -/
def checkFound (validator : JsonPathValidator) (payloadIsObject : Bool) :
    JsValue → JsValue → Except CheckException Bool
  | .number v, .string expected => .ok (P.numberText v == expected)
  | .bool v, .string expected => .ok ((toString v).toList == expected)
  | .array seq, .string expected => checkArray P seq expected
  | .array seq, .array items => .ok (P.same (.array seq) (.array items))
  | .array seq, value =>
      if startsWith validator.path "[?(".toList && endsWith validator.path ")]".toList &&
          payloadIsObject && (Reads.boolean value).toBool then .ok !seq.isEmpty
      else .ok (seq.any fun item => P.same item value)
  | .string v, .string expected => checkString P v expected
  | v, value => .ok (P.same v value)

/-- `JsonPathValidator.check`. -/
def check (validator : JsonPathValidator) (read : Option JsValue) (payloadIsObject : Bool) :
    Except CheckException Bool :=
  match read with
  | none => .ok (validator.maybeExpr == notDefined)
  | some v =>
      if validator.maybeExpr == isDefined then .ok true
      else checkFound P validator payloadIsObject v validator.value

end JsonPathValidator

/-! ## Texts of operators -/

namespace Rule

variable {Op : Type} {rule : Rule Op} {lead arg trail : Str}

/-- What the proofs use of a branch: the text begins with a letter, ends with a parenthesis
and is not the text of a validator without an argument, and the argument is looked for where
it begins, or one character later. -/
def valid (rule : Rule Op) : Bool :=
  rule.opening.head?.map isTrimmed == some false && rule.closings != 0 &&
    !rule.opening.isPrefixOf JsonPathValidator.isDefined &&
    rule.forms.all (fun form => !form.contains ')') &&
    (rule.offset == rule.opening.length ||
      rule.offset == rule.opening.length + 1 && rule.closings == 2)

/-- The argument begins like another operator, so that it is left to its branch. -/
def Shadowed (rule : Rule Op) (arg : Str) : Prop := ∃ form ∈ rule.forms, form <+: arg

/-- The argument is what is cut out of the text. -/
def Fits (rule : Rule Op) (lead arg trail : Str) : Prop :=
  if rule.offset = rule.opening.length then lead = [] ∧ trail = []
  else lead.length = 1 ∧ trail = [] ∨ lead = [] ∧ trail.length = 1 ∧ ∀ c ∈ arg, c = ')'

/-- The parentheses at the end are in no form. -/
theorem prefix_append_closing_iff {form : Str} (hform : ')' ∉ form) :
    form <+: arg ++ rule.closing ↔ form <+: arg := by
  refine ⟨fun h => ?_, fun h => h.trans (List.prefix_append ..)⟩
  obtain ⟨rest, hrest⟩ := h
  rcases List.append_eq_append_iff.mp hrest with ⟨more, harg, -⟩ | ⟨more, hmore, hclosing⟩
  · exact ⟨more, harg.symm⟩
  · cases more with
    | nil =>
        rw [List.append_nil] at hmore
        exact hmore ▸ List.prefix_rfl
    | cons c more =>
        have hc : c ∈ rule.closing := by
          rw [hclosing]
          exact List.mem_cons_self ..
        rw [List.eq_of_mem_replicate hc] at hmore
        exact absurd (hmore ▸ List.mem_append_right arg (List.mem_cons_self ..)) hform

theorem init_eq_ok_iff {n : Nat} {s kept : Str} :
    init n s = .ok kept ↔ ∃ last : Str, s = kept ++ last ∧ last.length = n := by
  induction n generalizing s with
  | zero =>
      rw [init, Except.ok.injEq]
      constructor
      · rintro rfl
        exact ⟨[], (List.append_nil s).symm, rfl⟩
      · rintro ⟨last, rfl, hlast⟩
        rw [List.length_eq_zero_iff.mp hlast, List.append_nil]
  | succ n ih =>
      rw [init]
      rcases List.eq_nil_or_concat s with rfl | ⟨before, c, rfl⟩
      · rw [if_pos List.isEmpty_nil]
        refine iff_of_false nofun ?_
        rintro ⟨last, heq, hlast⟩
        rw [(List.append_eq_nil_iff.mp heq.symm).2] at hlast
        cases hlast
      · rw [List.concat_eq_append, if_neg (by simp), List.dropLast_concat, ih]
        constructor
        · rintro ⟨last, rfl, rfl⟩
          exact ⟨last ++ [c], List.append_assoc .., List.length_append⟩
        · rintro ⟨last, heq, hlast⟩
          rcases List.eq_nil_or_concat last with rfl | ⟨beginning, d, rfl⟩
          · cases hlast
          · rw [List.concat_eq_append, ← List.append_assoc] at heq
            have hsame := List.append_inj_left' heq rfl
            rw [List.concat_eq_append, List.length_append] at hlast
            exact ⟨beginning, hsame, Nat.succ.inj hlast⟩

/-- What is cut out stands between a beginning and an end of fixed lengths. -/
theorem cut_eq_ok_iff {expected argument : Str} :
    rule.cut expected = .ok argument ↔ ∃ first last : Str,
      expected = first ++ argument ++ last ∧ first.length = rule.offset ∧
        last.length = rule.closings := by
  rw [cut]
  split
  · next hoffset =>
      rw [init_eq_ok_iff]
      constructor
      · rintro ⟨last, heq, hlast⟩
        refine ⟨expected.take rule.offset, last, ?_, List.length_take_of_le hoffset, hlast⟩
        rw [List.append_assoc, ← heq, List.take_append_drop]
      · rintro ⟨first, last, rfl, hfirst, hlast⟩
        rw [List.append_assoc, ← hfirst, List.drop_left]
        exact ⟨last, rfl, hlast⟩
  · next hoffset =>
      refine iff_of_false nofun ?_
      rintro ⟨first, last, rfl, hfirst, -⟩
      rw [List.length_append, List.length_append] at hoffset
      omega

/-- A text that is the same with one more character at either end has no other one. -/
theorem append_singleton_eq_cons_iff {c d : Char} {s : Str} :
    s ++ [c] = d :: s ↔ d = c ∧ ∀ e ∈ s, e = c := by
  induction s generalizing d with
  | nil =>
      rw [List.nil_append, List.cons.injEq, and_iff_left rfl, eq_comm]
      exact (and_iff_left (List.forall_mem_nil _)).symm
  | cons e s ih =>
      rw [List.cons_append, List.cons.injEq, ih, List.forall_mem_cons]
      exact and_congr_left fun h => by rw [h.1, eq_comm]

/-- Where the cut begins one character too late, and ends one too late, the argument moves by
one character. -/
theorem shifted_of_append (hclosings : rule.closings = 2) {first last : Str}
    (heq : rule.opening ++ arg ++ rule.closing ++ trail = first ++ arg ++ last)
    (hfirst : first.length = rule.opening.length + 1) : ∀ c ∈ arg, c = ')' := by
  have hclosing : rule.closing = [')'] ++ [')'] := by
    rw [closing, hclosings]
    rfl
  have hopening : rule.opening <+: first := by
    refine List.prefix_of_prefix_length_le ?_ (heq ▸ (List.prefix_append first arg).trans
      (List.prefix_append ..)) (by omega)
    rw [List.append_assoc, List.append_assoc]
    exact List.prefix_append ..
  obtain ⟨more, rfl⟩ := hopening
  rw [List.length_append] at hfirst
  obtain ⟨c, rfl⟩ := List.length_eq_one_iff.mp (Nat.add_left_cancel hfirst)
  simp only [hclosing, List.append_assoc] at heq
  have hsame := List.append_cancel_left heq
  rw [← List.append_assoc arg, ← List.append_assoc [c]] at hsame
  have hshift : arg ++ [')'] = c :: arg := List.append_inj_left hsame (by simp)
  exact (append_singleton_eq_cons_iff.mp hshift).2

section Valid

variable (hvalid : rule.valid = true)

include hvalid

theorem head_opening : rule.opening.head?.map isTrimmed = some false := by
  simp only [valid, Bool.and_eq_true, beq_iff_eq] at hvalid
  exact hvalid.1.1.1.1

theorem closings_ne_zero : rule.closings ≠ 0 := by
  simp only [valid, Bool.and_eq_true, bne_iff_ne] at hvalid
  exact hvalid.1.1.1.2

theorem not_isDefined : ¬ rule.opening <+: JsonPathValidator.isDefined := by
  simp only [valid, Bool.and_eq_true, Bool.not_eq_true', ← Bool.not_eq_true,
    List.isPrefixOf_iff_prefix] at hvalid
  exact hvalid.1.1.2

theorem notMem_form {form : Str} (hform : form ∈ rule.forms) : ')' ∉ form := by
  simp only [valid, Bool.and_eq_true, List.all_eq_true] at hvalid
  simpa using hvalid.1.2 form hform

theorem offset_cases : rule.offset = rule.opening.length ∨
    rule.offset = rule.opening.length + 1 ∧ rule.closings = 2 := by
  simpa [valid] using (Bool.and_eq_true _ _ |>.mp hvalid).2

/-- Without what stands around it, a text is the one that its branch is for. -/
theorem trim_text (hlead : ∀ c ∈ lead, isTrimmed c = true)
    (htrail : ∀ c ∈ trail, isTrimmed c = true) :
    trim (rule.text lead arg trail) = rule.opening ++ arg ++ rule.closing := by
  obtain ⟨c, hc, hopens⟩ := Option.map_eq_some_iff.mp (head_opening hvalid)
  obtain ⟨rest, hrest⟩ := List.head?_eq_some_iff.mp hc
  obtain ⟨n, hn⟩ := Nat.exists_eq_succ_of_ne_zero (closings_ne_zero hvalid)
  have hclosing : rule.closing = List.replicate n ')' ++ [')'] := by
    rw [closing, hn, List.replicate_succ']
  apply trim_append
  · rw [hrest]
    exact List.cons_ne_nil _ _
  · exact hlead
  · exact htrail
  · intro d hd
    rw [hrest] at hd
    cases hd
    exact hopens
  · intro d hd
    rw [hclosing, ← List.append_assoc, List.getLast?_concat] at hd
    cases hd
    rfl

/-- The branch of an operator takes its texts, if their arguments are not those of others. -/
theorem applies_text (hlead : ∀ c ∈ lead, isTrimmed c = true)
    (htrail : ∀ c ∈ trail, isTrimmed c = true) :
    rule.applies (rule.text lead arg trail) = true ↔ ¬ rule.Shadowed arg := by
  have hstarts : startsWith (rule.opening ++ arg ++ rule.closing) rule.opening = true := by
    rw [startsWith, List.isPrefixOf_iff_prefix, List.append_assoc]
    exact List.prefix_append ..
  have hends : endsWith (rule.opening ++ arg ++ rule.closing) rule.closing = true := by
    rw [endsWith, List.isSuffixOf_iff_suffix]
    exact List.suffix_append ..
  rw [applies, trim_text hvalid hlead htrail, hstarts, hends, Bool.true_and, Bool.true_and,
    List.all_eq_true, Shadowed]
  push Not
  refine forall₂_congr fun form hform => ?_
  rw [Bool.not_eq_true', ← Bool.not_eq_true, startsWith, List.isPrefixOf_iff_prefix,
    List.append_assoc, List.prefix_append_right_inj, not_iff_not]
  exact prefix_append_closing_iff (notMem_form hvalid hform)

/-- When the argument is what is cut out. -/
theorem cut_text_iff : rule.cut (rule.text lead arg trail) = .ok arg ↔
    rule.Fits lead arg trail := by
  have hclosing : rule.closing.length = rule.closings := List.length_replicate ..
  rw [cut_eq_ok_iff, Fits, text]
  constructor
  · rintro ⟨first, last, heq, hfirst, hlast⟩
    have hlength := congrArg List.length heq
    simp only [List.length_append] at hlength
    split
    · next hoffset =>
        exact ⟨List.length_eq_zero_iff.mp (by omega), List.length_eq_zero_iff.mp (by omega)⟩
    · next hoffset =>
        obtain ⟨hone, htwo⟩ := (offset_cases hvalid).resolve_left hoffset
        rcases Nat.eq_zero_or_pos lead.length with hzero | hpos
        · refine Or.inr ⟨List.length_eq_zero_iff.mp hzero, by omega, ?_⟩
          rw [List.length_eq_zero_iff.mp hzero, List.nil_append] at heq
          exact shifted_of_append htwo heq (by omega)
        · exact Or.inl ⟨by omega, List.length_eq_zero_iff.mp (by omega)⟩
  · intro hfits
    split at hfits
    · next hoffset =>
        obtain ⟨rfl, rfl⟩ := hfits
        exact ⟨rule.opening, rule.closing, by simp, hoffset.symm, hclosing⟩
    · next hoffset =>
        obtain ⟨hone, htwo⟩ := (offset_cases hvalid).resolve_left hoffset
        rcases hfits with ⟨hlead, rfl⟩ | ⟨rfl, htrail, hall⟩
        · refine ⟨lead ++ rule.opening, rule.closing, by simp, ?_, hclosing⟩
          rw [List.length_append, hlead, hone, Nat.add_comm]
        · refine ⟨rule.opening ++ [')'], [')'] ++ trail, ?_, by simp [hone], by simp [htrail, htwo]⟩
          have hshift : arg ++ [')'] = ')' :: arg := append_singleton_eq_cons_iff.mpr ⟨rfl, hall⟩
          have hclosing' : rule.closing = [')', ')'] := by
            rw [closing, htwo]
            rfl
          rw [hclosing', List.nil_append, List.append_assoc rule.opening [')'],
            List.singleton_append, ← hshift]
          simp

end Valid

end Rule

/-- The branches of a value are told apart by what their texts begin with. -/
def Separated {Op : Type} (rules : List (Rule Op)) : Prop :=
  rules.Pairwise fun first second =>
    (¬ first.opening <+: second.opening ∧ ¬ second.opening <+: first.opening) ∨
      ∃ form ∈ first.forms, second.opening = first.opening ++ form

instance {Op : Type} (rules : List (Rule Op)) : Decidable (Separated rules) := by
  unfold Separated
  infer_instance

/-- A table of branches for one kind of value. -/
structure Table (Op : Type) where
  rules : List (Rule Op)
  valid : ∀ rule ∈ rules, rule.valid = true
  separated : Separated rules
  nodup : (rules.map Rule.operator).Nodup

namespace Table

variable {Op : Type} {table : Table Op} {rule : Rule Op} {lead arg trail : Str}

/-- The operator of a branch is that of no other branch. -/
theorem eq_of_operator_eq {other : Rule Op} (hrule : rule ∈ table.rules)
    (hother : other ∈ table.rules) (h : other.operator = rule.operator) : other = rule :=
  List.inj_on_of_nodup_map table.nodup hother hrule h

/-- The branch of an operator is the first one that takes its texts. -/
theorem find_text (hrule : rule ∈ table.rules) (hlead : ∀ c ∈ lead, isTrimmed c = true)
    (htrail : ∀ c ∈ trail, isTrimmed c = true) (h : ¬ rule.Shadowed arg) :
    table.rules.find? (·.applies (rule.text lead arg trail)) = some rule := by
  have hvalid := table.valid rule hrule
  obtain ⟨before, after, hrules⟩ := List.append_of_mem hrule
  rw [List.find?_eq_some_iff_append]
  refine ⟨(Rule.applies_text hvalid hlead htrail).mpr h, before, after, hrules, ?_⟩
  intro first hfirst
  have hseparated := table.separated
  rw [hrules] at hseparated
  have hpair := (List.pairwise_append.mp hseparated).2.2 first hfirst rule
    (List.mem_cons_self ..)
  rw [Bool.not_eq_true', ← Bool.not_eq_true]
  intro happlies
  rw [Rule.applies, Rule.trim_text hvalid hlead htrail, Bool.and_eq_true, Bool.and_eq_true,
    startsWith, List.isPrefixOf_iff_prefix] at happlies
  obtain ⟨⟨hstarts, -⟩, hforms⟩ := happlies
  have hopening : rule.opening <+: rule.opening ++ arg ++ rule.closing := by
    rw [List.append_assoc]
    exact List.prefix_append ..
  rcases hpair with ⟨hfirst', hrule'⟩ | ⟨form, hform, heq⟩
  · exact (List.prefix_or_prefix_of_prefix hstarts hopening).elim hfirst' hrule'
  · have hnot := List.all_eq_true.mp hforms form hform
    rw [← heq, Bool.not_eq_true', ← Bool.not_eq_true, startsWith,
      List.isPrefixOf_iff_prefix] at hnot
    exact hnot hopening

/-- Which operator and argument are evaluated is a matter of the branch alone. -/
theorem chosen_text_iff (hrule : rule ∈ table.rules) (hlead : ∀ c ∈ lead, isTrimmed c = true)
    (htrail : ∀ c ∈ trail, isTrimmed c = true) (argument : Str) :
    chosen table.rules (rule.text lead arg trail) = some (rule.operator, .ok argument) ↔
      ¬ rule.Shadowed arg ∧ rule.cut (rule.text lead arg trail) = .ok argument := by
  have hvalid := table.valid rule hrule
  constructor
  · intro h
    obtain ⟨other, hfind, heq⟩ := Option.map_eq_some_iff.mp h
    injection heq with hoperator hcut
    have hother := eq_of_operator_eq hrule (List.mem_of_find?_eq_some hfind) hoperator
    rw [hother] at hfind hcut
    have happlies := List.find?_some hfind
    exact ⟨(Rule.applies_text hvalid hlead htrail).mp happlies, hcut⟩
  · rintro ⟨hshadowed, hcut⟩
    rw [chosen, find_text hrule hlead htrail hshadowed, Option.map_some, hcut]

end Table

def arrayTable : Table ArrayOperator where
  rules := arrayRules
  valid := by decide
  separated := by decide
  nodup := by decide

def stringTable : Table StringOperator where
  rules := stringRules
  valid := by decide
  separated := by decide
  nodup := by decide

/-! ## Evaluation -/

section Evaluation

variable {P}

/-- The argument can be compiled. -/
def Matching.Compiles (P : CheckPlatform E) (argument : Str) : Matching → Prop
  | text => True
  | regex => ∃ compiled, P.regex argument = .ok compiled
  | wildcard => ∃ compiled, P.wildcard argument = .ok compiled

/-- The argument is one that the operator can do something with. -/
def ArrayOperator.Evaluable (P : CheckPlatform E) (argument : Str) : ArrayOperator → Prop
  | size _ => ∃ n, toInt P argument = .ok n
  | contains _ matching => matching.Compiles P argument
  | jsonContains _ matching => matching.Compiles P argument
  | startsWith _ => True

def StringOperator.Evaluable (P : CheckPlatform E) (argument : Str) : StringOperator → Prop
  | accepts _ matching => matching.Compiles P argument
  | _ => True

/-- The positive operator of a negative one. -/
def ArrayOperator.positive : ArrayOperator → Option ArrayOperator
  | contains true matching => some (contains false matching)
  | jsonContains true matching => some (jsonContains false matching)
  | _ => none

def StringOperator.positive : StringOperator → Option StringOperator
  | accepts true matching => some (accepts false matching)
  | containedIn true => some (containedIn false)
  | _ => none

theorem exists_map_eq_ok_iff {α β ε : Type} {result : Except ε α} {f : α → β} :
    (∃ b, result.map f = .ok b) ↔ ∃ a, result = .ok a := by
  cases result with
  | error e => exact iff_of_false nofun nofun
  | ok a => exact iff_of_true ⟨f a, rfl⟩ ⟨a, rfl⟩

theorem exists_mapError_eq_ok_iff {α ε δ : Type} {result : Except ε α} {f : ε → δ} :
    (∃ a, result.mapError f = .ok a) ↔ ∃ a, result = .ok a := by
  cases result with
  | error e => exact iff_of_false nofun nofun
  | ok a => exact iff_of_true ⟨a, rfl⟩ ⟨a, rfl⟩

theorem exists_matcher_iff {plain : Str → Str → Bool} {matching : Matching} {argument : Str} :
    (∃ accepted, matching.matcher P plain argument = .ok accepted) ↔
      matching.Compiles P argument := by
  cases matching with
  | text => exact iff_of_true ⟨plain argument, rfl⟩ trivial
  | regex => exact exists_mapError_eq_ok_iff.trans exists_map_eq_ok_iff
  | wildcard => exact exists_mapError_eq_ok_iff.trans exists_map_eq_ok_iff

theorem exists_evalArray_iff {seq : List JsValue} {operator : ArrayOperator} {argument : Str} :
    (∃ b, evalArray P seq operator argument = .ok b) ↔ operator.Evaluable P argument := by
  cases operator with
  | size comparison => exact exists_map_eq_ok_iff
  | contains negated matching => exact exists_map_eq_ok_iff.trans exists_matcher_iff
  | jsonContains negated matching => exact exists_map_eq_ok_iff.trans exists_matcher_iff
  | startsWith negated => exact iff_of_true ⟨_, rfl⟩ trivial

theorem exists_evalString_iff {v : Str} {operator : StringOperator} {argument : Str} :
    (∃ b, evalString P v operator argument = .ok b) ↔ operator.Evaluable P argument := by
  cases operator with
  | accepts negated matching => exact exists_map_eq_ok_iff.trans exists_matcher_iff
  | not => exact iff_of_true ⟨_, rfl⟩ trivial
  | containedIn negated => exact iff_of_true ⟨_, rfl⟩ trivial

theorem map_bne_false {α : Type} {result : Except CheckException α} {f : α → Bool} {b : Bool}
    (h : (result.map fun a => f a != true) = .ok b) :
    (result.map fun a => f a != false) = .ok (!b) := by
  cases result with
  | error e => cases h
  | ok a =>
      injection h with h
      rw [← h]
      have hnegation : (f a != false) = !(f a != true) := by cases f a <;> rfl
      exact congrArg Except.ok hnegation

/-- A negative operator is the negation of its positive one, on the same argument. -/
theorem evalArray_positive {seq : List JsValue} {operator positive : ArrayOperator}
    (hpositive : operator.positive = some positive) {argument : Str} {b : Bool}
    (h : evalArray P seq operator argument = .ok b) :
    evalArray P seq positive argument = .ok (!b) := by
  cases operator with
  | size comparison => cases hpositive
  | contains negated matching =>
      cases negated <;> cases hpositive
      exact map_bne_false h
  | jsonContains negated matching =>
      cases negated <;> cases hpositive
      exact map_bne_false h
  | startsWith negated => cases hpositive

theorem evalString_positive {v : Str} {operator positive : StringOperator}
    (hpositive : operator.positive = some positive) {argument : Str} {b : Bool}
    (h : evalString P v operator argument = .ok b) :
    evalString P v positive argument = .ok (!b) := by
  cases operator with
  | accepts negated matching =>
      cases negated <;> cases hpositive
      exact map_bne_false h
  | not => cases hpositive
  | containedIn negated =>
      cases negated <;> cases hpositive
      injection h with h
      rw [← h]
      exact congrArg Except.ok (by simp)

end Evaluation

/-! ## Values that operators are for -/

/-- An array or a string that was read. -/
inductive Subject
  | array (seq : List JsValue)
  | string (v : Str)

namespace Subject

def value : Subject → JsValue
  | array seq => .array seq
  | string v => .string v

def Op : Subject → Type
  | array _ => ArrayOperator
  | string _ => StringOperator

def table : (s : Subject) → Table s.Op
  | array _ => arrayTable
  | string _ => stringTable

def eval : (s : Subject) → s.Op → Str → Except CheckException Bool
  | array seq => evalArray P seq
  | string v => evalString P v

def positive : (s : Subject) → s.Op → Option s.Op
  | array _ => ArrayOperator.positive
  | string _ => StringOperator.positive

def Evaluable (argument : Str) : (s : Subject) → s.Op → Prop
  | array _ => ArrayOperator.Evaluable P argument
  | string _ => StringOperator.Evaluable P argument

/-- What a validator with a text answers about the value. -/
def answer (path : Str) (error : Option Str) (payloadIsObject : Bool) (s : Subject)
    (expected : Str) : Except CheckException Bool :=
  JsonPathValidator.check P { path, value := .string expected, error } (some s.value)
    payloadIsObject

/-- An operator with an argument is coherent: the argument is what is evaluated, without an
exception, and a negative operator answers the negation of its positive one. -/
structure Coherent (path : Str) (error : Option Str) (payloadIsObject : Bool) (s : Subject)
    (rule : Rule s.Op) (lead arg trail : Str) : Prop where
  exactly : chosen s.table.rules (rule.text lead arg trail) = some (rule.operator, .ok arg)
  answers : ∃ b, answer P path error payloadIsObject s (rule.text lead arg trail) = .ok b
  negates : ∀ b, answer P path error payloadIsObject s (rule.text lead arg trail) = .ok b →
    ∀ other ∈ s.table.rules, s.positive rule.operator = some other.operator →
      answer P path error payloadIsObject s (other.text lead arg trail) = .ok (!b)

/-- What an operator asks for: its argument is what is cut out, does not begin like another
operator, and can be evaluated, and what is cut out for the positive operator does the same as
the argument. -/
structure Suits (s : Subject) (rule : Rule s.Op) (lead arg trail : Str) : Prop where
  fits : rule.Fits lead arg trail
  unshadowed : ¬ rule.Shadowed arg
  evaluable : s.Evaluable P arg rule.operator
  counterpart : ∀ other ∈ s.table.rules, s.positive rule.operator = some other.operator →
    ∃ argument, other.cut (other.text lead arg trail) = .ok argument ∧
      s.eval P other.operator argument = s.eval P other.operator arg

variable {P} {s : Subject} {rule other : Rule s.Op} {lead arg trail : Str}

theorem exists_eval_iff {operator : s.Op} {argument : Str} :
    (∃ b, s.eval P operator argument = .ok b) ↔ s.Evaluable P argument operator := by
  cases s with
  | array seq => exact exists_evalArray_iff
  | string v => exact exists_evalString_iff

theorem eval_positive {operator positive : s.Op} (hpositive : s.positive operator = some positive)
    {argument : Str} {b : Bool} (h : s.eval P operator argument = .ok b) :
    s.eval P positive argument = .ok (!b) := by
  cases s with
  | array seq => exact evalArray_positive hpositive h
  | string v => exact evalString_positive hpositive h

theorem forms_of_positive (hrule : rule ∈ s.table.rules) (hother : other ∈ s.table.rules)
    (h : s.positive rule.operator = some other.operator) : other.forms = rule.forms := by
  cases s with
  | array seq =>
      have hforms : ∀ rule ∈ arrayRules, ∀ other ∈ arrayRules,
          rule.operator.positive = some other.operator → other.forms = rule.forms := by
        decide
      exact hforms rule hrule other hother h
  | string v =>
      have hforms : ∀ rule ∈ stringRules, ∀ other ∈ stringRules,
          rule.operator.positive = some other.operator → other.forms = rule.forms := by
        decide
      exact hforms rule hrule other hother h

/-- The text of an operator is not the one of a validator without an argument. -/
theorem text_ne_isDefined (hvalid : rule.valid = true) (hlead : ∀ c ∈ lead, isTrimmed c = true)
    (htrail : ∀ c ∈ trail, isTrimmed c = true) :
    (rule.text lead arg trail == JsonPathValidator.isDefined) = false := by
  rw [beq_eq_false_iff_ne]
  intro heq
  have htrim : trim (rule.text lead arg trail) = rule.opening ++ arg ++ rule.closing :=
    Rule.trim_text hvalid hlead htrail
  rw [heq] at htrim
  apply Rule.not_isDefined hvalid
  have hsame : trim JsonPathValidator.isDefined = JsonPathValidator.isDefined := by decide
  rw [← hsame, htrim, List.append_assoc]
  exact List.prefix_append ..

theorem answer_text {path : Str} {error : Option Str} {payloadIsObject : Bool}
    (hrule : rule ∈ s.table.rules) (hlead : ∀ c ∈ lead, isTrimmed c = true)
    (htrail : ∀ c ∈ trail, isTrimmed c = true) (h : ¬ rule.Shadowed arg) :
    answer P path error payloadIsObject s (rule.text lead arg trail) =
      (rule.cut (rule.text lead arg trail)).bind (s.eval P rule.operator) := by
  have hne : (rule.text lead arg trail == JsonPathValidator.isDefined) = false :=
    text_ne_isDefined (s.table.valid rule hrule) hlead htrail
  have hchosen : chosen s.table.rules (rule.text lead arg trail) =
      some (rule.operator, rule.cut (rule.text lead arg trail)) := by
    rw [chosen, Table.find_text hrule hlead htrail h, Option.map_some]
  rw [answer, JsonPathValidator.check]
  cases s with
  | array seq =>
      have happly : JsonPathValidator.checkArray P seq (rule.text lead arg trail) =
          (rule.cut (rule.text lead arg trail)).bind (evalArray P seq rule.operator) := by
        rw [JsonPathValidator.checkArray, applyRules]
        exact hchosen ▸ rfl
      simp only [JsonPathValidator.maybeExpr, hne]
      exact happly
  | string v =>
      have happly : JsonPathValidator.checkString P v (rule.text lead arg trail) =
          (rule.cut (rule.text lead arg trail)).bind (evalString P v rule.operator) := by
        rw [JsonPathValidator.checkString, applyRules]
        exact hchosen ▸ rfl
      simp only [JsonPathValidator.maybeExpr, hne]
      exact happly

end Subject

open Subject

/-- An operator with an argument is coherent exactly if it gets what it asks for. -/
theorem coherent_iff_suits (P : CheckPlatform E) (path : Str) (error : Option Str)
    (payloadIsObject : Bool) (s : Subject) (rule : Rule s.Op) (lead arg trail : Str)
    (hrule : rule ∈ s.table.rules) (hlead : ∀ c ∈ lead, isTrimmed c = true)
    (htrail : ∀ c ∈ trail, isTrimmed c = true) :
    Coherent P path error payloadIsObject s rule lead arg trail ↔
      Suits P s rule lead arg trail := by
  have hvalid := s.table.valid rule hrule
  constructor
  · intro h
    obtain ⟨hunshadowed, hcut⟩ :=
      (Table.chosen_text_iff hrule hlead htrail arg).mp h.exactly
    have hanswer := @answer_text E P s rule lead arg trail path error payloadIsObject hrule hlead
      htrail hunshadowed
    rw [hcut] at hanswer
    obtain ⟨b, hb⟩ := h.answers
    have heval : s.eval P rule.operator arg = .ok b := hanswer.symm.trans hb
    refine ⟨(Rule.cut_text_iff hvalid).mp hcut, hunshadowed, exists_eval_iff.mp ⟨b, heval⟩, ?_⟩
    intro other hother hpositive
    have hshadowed : ¬ other.Shadowed arg := by
      rwa [Rule.Shadowed, forms_of_positive hrule hother hpositive]
    have hnegated := h.negates b hb other hother hpositive
    rw [answer_text hother hlead htrail hshadowed] at hnegated
    cases hargument : other.cut (other.text lead arg trail) with
    | error e =>
        rw [hargument] at hnegated
        cases hnegated
    | ok argument =>
        rw [hargument] at hnegated
        exact ⟨argument, rfl, hnegated.trans (eval_positive hpositive heval).symm⟩
  · intro h
    have hcut := (Rule.cut_text_iff hvalid).mpr h.fits
    have hanswer := @answer_text E P s rule lead arg trail path error payloadIsObject hrule hlead
      htrail h.unshadowed
    rw [hcut] at hanswer
    obtain ⟨b, hb⟩ := exists_eval_iff.mpr h.evaluable
    refine ⟨(Table.chosen_text_iff hrule hlead htrail arg).mpr ⟨h.unshadowed, hcut⟩,
      ⟨b, hanswer.trans hb⟩, ?_⟩
    intro b' hb' other hother hpositive
    have heval : s.eval P rule.operator arg = .ok b' := hanswer.symm.trans hb'
    have hshadowed : ¬ other.Shadowed arg := by
      have := h.unshadowed
      rwa [Rule.Shadowed, forms_of_positive hrule hother hpositive]
    obtain ⟨argument, hargument, hsame⟩ := h.counterpart other hother hpositive
    rw [answer_text hother hlead htrail hshadowed, hargument]
    exact hsame.trans (eval_positive hpositive heval)

section Examples

/-- A platform whose pools compile what they are asked for. -/
def plainPlatform : CheckPlatform starEngine where
  regex text := RegexPool.compile starEngine text text
  wildcard text := RegexPool.compile starEngine text (RegexPool.processedPattern text)
  digit c := if c.isDigit then some (c.toNat - '0'.toNat) else none
  stringify _ := []
  numberText _ := []
  same _ _ := false

/-- `ContainsNot(..)`, for strings. -/
def containsNot : Rule StringOperator :=
  { operator := .accepts true .text, opening := "ContainsNot(".toList, offset := 12 }

theorem coherent_iff_suits_example :
    Coherent plainPlatform [] none true (.string "abc".toList) containsNot [] "b".toList [] ↔
      Suits plainPlatform (.string "abc".toList) containsNot [] "b".toList [] :=
  coherent_iff_suits plainPlatform [] none true (.string "abc".toList) containsNot []
    "b".toList [] (List.mem_of_getElem? (i := 5) rfl) (List.forall_mem_nil _)
    (List.forall_mem_nil _)

/-- `JsonContainsNot(Regex(..))`. -/
def jsonContainsNotRegex : Rule ArrayOperator :=
  { operator := .jsonContains true .regex, opening := "JsonContainsNot(Regex(".toList,
    closings := 2, offset := 23 }

/-- A regular expression is evaluated without its first character. -/
theorem exists_not_coherent :
    ¬ ∀ (E : RegexEngine) (P : CheckPlatform E) (path : Str) (error : Option Str)
      (payloadIsObject : Bool) (s : Subject) (rule : Rule s.Op) (arg : Str),
        rule ∈ s.table.rules → Coherent P path error payloadIsObject s rule [] arg [] := by
  intro h
  have hcoherent := h starEngine plainPlatform [] none true (.array []) jsonContainsNotRegex
    "ab".toList (List.mem_of_getElem? (i := 16) rfl)
  have hcut := ((@Table.chosen_text_iff _ arrayTable jsonContainsNotRegex [] "ab".toList []
    (List.mem_of_getElem? (i := 16) rfl) (List.forall_mem_nil _) (List.forall_mem_nil _)
    "ab".toList).mp hcoherent.exactly).2
  have hlost : (.ok "b".toList : Except CheckException Str) = .ok "ab".toList := hcut
  injection hlost with hlost
  exact absurd hlost (by decide)

end Examples

end Validators

end Otoroshi
