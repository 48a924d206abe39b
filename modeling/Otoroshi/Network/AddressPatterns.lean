/-
# Lists of address patterns

A matcher sorts its patterns into exact addresses, ranges and wildcards when it is built, and looks
an address up in each of them. `matches_eq_any_single` says that nothing is lost in this: a list
answers like the matchers of its patterns, one for each, and is built when they all are.

Wildcards are compiled in a pool that is shared, so that building a matcher changes the pool. What
the pool answers for a text does not change by that (`shows_apply`).
-/

import Otoroshi.Network.IpAddress

namespace Otoroshi

open Stateful

/-! ## The pool does not forget -/

namespace RegexPool

variable {E : RegexEngine}

/-- What the pool answers for a wildcard. -/
def answer (pool : RegexPool E) (text : Str) : Except JvmException (Regex E) :=
  (RegexPool.apply text pool).1

theorem apply_of_lookup_some {text : Str} {pool : RegexPool E} {regex : Regex E}
    (h : pool.lookup text = some regex) : RegexPool.apply text pool = (.ok regex, pool) := by
  rw [RegexPool.apply, getOrCompile, h]

theorem apply_of_lookup_none {text : Str} {pool : RegexPool E} (h : pool.lookup text = none) :
    RegexPool.apply text pool = (compile E text (processedPattern text),
      match compile E text (processedPattern text) with
      | .ok regex => (text, regex) :: pool
      | .error _ => pool) := by
  rw [RegexPool.apply, getOrCompile, h]
  cases compile E text (processedPattern text) <;> rfl

/-- A pool that has what another one has, or has compiled it since. -/
def SameAnswers (pool later : RegexPool E) : Prop := ∀ text, answer later text = answer pool text

theorem SameAnswers.refl (pool : RegexPool E) : SameAnswers pool pool := fun _ => rfl

theorem sameAnswers_apply (text : Str) (pool : RegexPool E) :
    SameAnswers pool (RegexPool.apply text pool).2 := by
  intro other
  cases hlookup : pool.lookup text with
  | some regex => rw [apply_of_lookup_some hlookup]
  | none =>
      rw [apply_of_lookup_none hlookup]
      cases hcompile : compile E text (processedPattern text) with
      | error e => rfl
      | ok regex =>
          by_cases htext : other = text
          · subst htext
            have hstored : ((other, regex) :: pool : RegexPool E).lookup other = some regex := by
              simp
            rw [answer, answer, apply_of_lookup_some hstored, apply_of_lookup_none hlookup,
              hcompile]
          · have hother : ((text, regex) :: pool : RegexPool E).lookup other =
                pool.lookup other := by
              rw [List.lookup_cons, beq_false_of_ne htext]
            cases hfound : pool.lookup other with
            | some kept =>
                rw [answer, answer, apply_of_lookup_some (hother.trans hfound),
                  apply_of_lookup_some hfound]
            | none =>
                rw [answer, answer, apply_of_lookup_none (hother.trans hfound),
                  apply_of_lookup_none hfound]

/-- Asking for a wildcard gives the answer of the pool, and leaves the answers as they are. -/
theorem shows_apply (pool : RegexPool E) (text : Str) :
    Shows (SameAnswers pool) (RegexPool.apply text : Stateful (RegexPool E) JvmException _)
      (answer pool text) := by
  intro later hlater
  refine ⟨hlater text, fun other => ?_⟩
  rw [sameAnswers_apply text later other, hlater other]

end RegexPool

namespace IpAddressMatcher

variable (P : AddressPlatform)

/-! ## One pattern -/

/-- The answer of a matcher that is built for some patterns. -/
def answerOf (pool : RegexPool P.engine) (patterns : List Str) (address : Str) :
    Except JvmException Bool :=
  (ofPatterns P patterns pool).1.map fun matcher => matcher.matchesAddress address

/-- A wildcard is tried on both spellings of an address. -/
def acceptsWildcard (address : Str) (wildcard : Regex P.engine) : Bool :=
  let normalized := IpAddresses.normalize P address
  let canonical := canonical P normalized
  wildcard.matchesValue normalized || (canonical != normalized && wildcard.matchesValue canonical)

/-- The rule of a pattern: it is an address, a range, or a wildcard. -/
def acceptsByRule (pool : RegexPool P.engine) (pattern address : Str) : Except JvmException Bool :=
  let normalized := IpAddresses.normalize P address
  if isPlainAddress pattern then
    .ok (canonical P (IpAddresses.normalize P pattern) == canonical P normalized)
  else if pattern.contains '/' then .ok (CidrOfString.contains P pattern normalized)
  else (RegexPool.answer pool pattern).map (acceptsWildcard P address)

/-- A range is no address. -/
theorem isPlainAddress_eq_false {pattern : Str} (h : pattern.contains '/' = true) :
    isPlainAddress pattern = false := by
  refine Bool.eq_false_iff.mpr fun hplain => ?_
  rw [isPlainAddress, Bool.and_eq_true, List.all_eq_true] at hplain
  exact absurd (hplain.2 '/' (List.contains_iff_mem.mp h)) (by decide)

/-! ## All patterns -/

variable {P}

theorem shows_compileWildcards (pool : RegexPool P.engine) (patterns : List Str) :
    Shows (RegexPool.SameAnswers pool) (compileWildcards (P := P) patterns)
      (patterns.mapM (RegexPool.answer pool)) := by
  induction patterns with
  | nil => exact shows_pure []
  | cons pattern patterns ih =>
      rw [List.mapM_cons]
      exact shows_bind (RegexPool.shows_apply pool pattern) fun regex _ =>
        shows_bind ih fun rest _ => shows_pure _

/-- The patterns that are compiled. -/
def wildcardsOf (patterns : List Str) : List Str :=
  (patterns.filter fun p => !p.contains '/').filter fun p => !isPlainAddress p

/-- The matcher for patterns whose wildcards are compiled. -/
def sorted (patterns : List Str) (wildcards : List (Regex P.engine)) : IpAddressMatcher P where
  patterns
  exact := (patterns.filter isPlainAddress).map fun p => canonical P (IpAddresses.normalize P p)
  cidrs := patterns.filter fun p => p.contains '/'
  wildcards

theorem fst_ofPatterns (pool : RegexPool P.engine) (patterns : List Str) :
    (ofPatterns P patterns pool).1 =
      ((wildcardsOf patterns).mapM (RegexPool.answer pool)).map (sorted patterns) := by
  have hcompiled := (shows_compileWildcards pool (wildcardsOf patterns)).result
    (RegexPool.SameAnswers.refl pool)
  rw [← hcompiled]
  exact congrArg Prod.fst (bind_pure_apply _ (sorted patterns) pool)

/-- What the three lists say about an address. -/
def listsAccept (patterns : List Str) (address : Str) (wildcards : List (Regex P.engine)) : Bool :=
  ((patterns.filter isPlainAddress).any fun p =>
      canonical P (IpAddresses.normalize P p) == canonical P (IpAddresses.normalize P address)) ||
    ((patterns.filter fun p => p.contains '/').any
        (CidrOfString.contains P · (IpAddresses.normalize P address)) ||
      wildcards.any (acceptsWildcard P address))

theorem matchesAddress_sorted (p : Str) (patterns : List Str)
    (wildcards : List (Regex P.engine)) (address : Str) :
    (sorted (p :: patterns) wildcards).matchesAddress address =
      listsAccept (p :: patterns) address wildcards := by
  have hpatterns : (sorted (P := P) (p :: patterns) wildcards).patterns.isEmpty = false := rfl
  have hexact : (sorted (P := P) (p :: patterns) wildcards).exact.contains
      (canonical P (IpAddresses.normalize P address)) =
        ((p :: patterns).filter isPlainAddress).any fun p =>
          canonical P (IpAddresses.normalize P p) ==
            canonical P (IpAddresses.normalize P address) := by
    rw [sorted, List.contains_eq_any_beq, List.any_map]
    simp only [Function.comp_def, BEq.comm]
  rw [matchesAddress, hpatterns, if_neg Bool.false_ne_true, listsAccept, ← hexact, ← Bool.or_assoc]
  rfl

section Rules

variable {pool : RegexPool P.engine} {address p : Str} {patterns : List Str}

/-- The first pattern decides, or one of the others. -/
theorem any_mapM_cons {ε : Type} (rule : Str → Except ε Bool) :
    ((p :: patterns).mapM rule).map (·.any id) =
      rule p >>= fun accepted => ((patterns.mapM rule).map (·.any id)).map (accepted || ·) := by
  rw [List.mapM_cons]
  cases rule p with
  | error e => rfl
  | ok accepted =>
      cases patterns.mapM rule with
      | error e => rfl
      | ok answers => rfl

theorem map_map_answer {ε α : Type} (program : Except ε α) (f : α → Bool) (g : Bool → Bool) :
    (program.map f).map g = program.map fun value => g (f value) := by
  cases program <;> rfl

/-- The lists of a matcher, against the rules of its patterns. -/
theorem map_listsAccept (pool : RegexPool P.engine) (patterns : List Str) (address : Str) :
    ((wildcardsOf patterns).mapM (RegexPool.answer pool)).map (listsAccept patterns address) =
      (patterns.mapM (acceptsByRule P pool · address)).map (·.any id) := by
  induction patterns with
  | nil => rfl
  | cons p patterns ih =>
      rw [any_mapM_cons, ← ih]
      cases hplain : isPlainAddress p with
      | true =>
          have hrange : p.contains '/' = false := by
            refine Bool.eq_false_iff.mpr fun hrange => ?_
            rw [isPlainAddress_eq_false hrange] at hplain
            cases hplain
          have hsame : wildcardsOf (p :: patterns) = wildcardsOf patterns := by
            simp only [wildcardsOf, List.filter_cons, hrange, hplain, Bool.not_false, Bool.not_true,
              if_true, Bool.false_eq_true, if_false]
          have hlists : ∀ wildcards, listsAccept (P := P) (p :: patterns) address wildcards =
              (canonical P (IpAddresses.normalize P p) ==
                canonical P (IpAddresses.normalize P address) ||
                  listsAccept patterns address wildcards) := by
            intro wildcards
            simp only [listsAccept, List.filter_cons, hplain, hrange, if_true, List.any_cons,
              Bool.false_eq_true, if_false, Bool.or_assoc]
          rw [hsame, acceptsByRule, if_pos hplain, ok_bind, map_map_answer]
          exact congrArg (Except.map · _) (funext hlists)
      | false =>
          have hnot : ¬ isPlainAddress p = true := by rw [hplain]; exact Bool.false_ne_true
          cases hrange : p.contains '/' with
          | true =>
              have hsame : wildcardsOf (p :: patterns) = wildcardsOf patterns := by
                simp only [wildcardsOf, List.filter_cons, hrange, Bool.not_true,
                  Bool.false_eq_true, if_false]
              have hlists : ∀ wildcards, listsAccept (P := P) (p :: patterns) address wildcards =
                  (CidrOfString.contains P p (IpAddresses.normalize P address) ||
                    listsAccept patterns address wildcards) := by
                intro wildcards
                simp only [listsAccept, List.filter_cons, hplain, hrange, if_true, List.any_cons,
                  Bool.false_eq_true, if_false, Bool.or_assoc, Bool.or_left_comm]
              rw [hsame, acceptsByRule, if_neg hnot, if_pos hrange, ok_bind, map_map_answer]
              exact congrArg (Except.map · _) (funext hlists)
          | false =>
              have hwildcard : ¬ p.contains '/' = true := by rw [hrange]; exact Bool.false_ne_true
              have hmore : wildcardsOf (p :: patterns) = p :: wildcardsOf patterns := by
                simp only [wildcardsOf, List.filter_cons, hrange, hplain, Bool.not_false, if_true]
              have hlists : ∀ wildcard wildcards,
                  listsAccept (P := P) (p :: patterns) address (wildcard :: wildcards) =
                    (acceptsWildcard P address wildcard ||
                      listsAccept patterns address wildcards) := by
                intro wildcard wildcards
                simp only [listsAccept, List.filter_cons, hplain, hrange, List.any_cons,
                  Bool.false_eq_true, if_false, Bool.or_left_comm]
              rw [hmore, acceptsByRule, if_neg hnot, if_neg hwildcard, List.mapM_cons]
              cases RegexPool.answer pool p with
              | error e => rfl
              | ok wildcard =>
                  cases (wildcardsOf patterns).mapM (RegexPool.answer pool) with
                  | error e => rfl
                  | ok wildcards => exact congrArg Except.ok (hlists wildcard wildcards)

theorem answerOf_eq (pool : RegexPool P.engine) (patterns : List Str) (address : Str) :
    answerOf P pool patterns address =
      (patterns.mapM (acceptsByRule P pool · address)).map (·.any id) := by
  rw [← map_listsAccept, answerOf, fst_ofPatterns]
  cases patterns with
  | nil => rfl
  | cons p patterns =>
      cases (wildcardsOf (p :: patterns)).mapM (RegexPool.answer pool) with
      | error e => rfl
      | ok wildcards =>
          exact congrArg Except.ok (matchesAddress_sorted p patterns wildcards address)

/-- A matcher of one pattern answers by the rule of the pattern. -/
theorem answerOf_singleton (pool : RegexPool P.engine) (p address : Str) :
    answerOf P pool [p] address = acceptsByRule P pool p address := by
  rw [answerOf_eq, any_mapM_cons]
  cases acceptsByRule P pool p address with
  | error e => rfl
  | ok accepted => exact congrArg Except.ok (Bool.or_false accepted)

/-- A matcher answers like the matchers of its patterns, and each of these by the rule of its
pattern. If a pattern has no matcher, the list has none, and it fails alike. -/
theorem matches_eq_any_single (pool : RegexPool P.engine) (patterns : List Str) (address : Str) :
    answerOf P pool patterns address =
        (patterns.mapM fun p => answerOf P pool [p] address).map (·.any id) ∧
      ∀ p, answerOf P pool [p] address = acceptsByRule P pool p address := by
  refine ⟨?_, fun p => answerOf_singleton pool p address⟩
  simp only [answerOf_singleton]
  exact answerOf_eq pool patterns address

end Rules

end IpAddressMatcher

end Otoroshi
