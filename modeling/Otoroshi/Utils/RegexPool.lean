/-
# The pool of compiled patterns

`RegexPool` compiles a text once and keeps the result under that text. Two entry
points compile it in two ways: `apply` reads it as a wildcard expression, whose
dots are escaped and whose stars stand for any characters, while `regex` hands
it to the engine as it is. Both look the text up in the same pool first.

What a call returns is therefore its own compilation only when no earlier call
stored the text under the other rule. `results_eq_ownResults_iff` says exactly
which sequences of calls are free of that.
-/

import Otoroshi.Foundation.Pattern

namespace Otoroshi

/-- The exceptions the modelled code lets out: the engine's syntax error, and
`init` of an empty string. -/
inductive JvmException
  | patternSyntax (text : Str)
  | emptyInit
  deriving DecidableEq

/-- A compiled pattern with the text it was asked for. -/
@[ext]
structure Regex (E : RegexEngine) where
  originalPattern : Str
  compiledPattern : E.Pattern

/-- `Regex.matches`. -/
def Regex.matchesValue {E : RegexEngine} (regex : Regex E) (value : Str) : Bool :=
  E.accepts regex.compiledPattern value

/-- The shared pool: the compiled pattern kept under each source text. -/
abbrev RegexPool (E : RegexEngine) := List (Str × Regex E)

namespace RegexPool

variable {E : RegexEngine}

/-- What `apply` gives the engine: dots escaped, stars turned into `.*`. -/
def processedPattern (originalPattern : Str) : Str :=
  replaceChar (replaceChar originalPattern '.' "\\.".toList) '*' ".*".toList

/-- Compile a processed text for an original one, as `Pattern.compile` does. -/
def compile (E : RegexEngine) (originalPattern processed : Str) :
    Except JvmException (Regex E) :=
  match E.compile processed with
  | some compiled => .ok ⟨originalPattern, compiled⟩
  | none => .error (.patternSyntax processed)

/-- The body both entry points share: compile and keep the pattern unless the
text is in the pool, then read the pool. A syntax error leaves the pool alone. -/
def getOrCompile (originalPattern processed : Str) (pool : RegexPool E) :
    Except JvmException (Regex E) × RegexPool E :=
  match pool.lookup originalPattern with
  | some regex => (.ok regex, pool)
  | none =>
      match compile E originalPattern processed with
      | .ok regex => (.ok regex, (originalPattern, regex) :: pool)
      | .error e => (.error e, pool)

/-- `RegexPool.apply`: the pattern of a wildcard expression. -/
def apply (originalPattern : Str) (pool : RegexPool E) :
    Except JvmException (Regex E) × RegexPool E :=
  getOrCompile originalPattern (processedPattern originalPattern) pool

/-- `RegexPool.regex`: the pattern of a raw regular expression. -/
def regex (originalPattern : Str) (pool : RegexPool E) :
    Except JvmException (Regex E) × RegexPool E :=
  getOrCompile originalPattern originalPattern pool

/-- One call to one of the two entry points. -/
inductive Call
  | apply (originalPattern : Str)
  | regex (originalPattern : Str)
  deriving DecidableEq

/-- The text a call looks up in the pool. -/
def Call.text : Call → Str
  | .apply text => text
  | .regex text => text

/-- The text a call would compile. -/
def Call.processed : Call → Str
  | .apply text => processedPattern text
  | .regex text => text

/-- The answer of a call's own compilation rule, whatever the pool holds. -/
def Call.ownResult (E : RegexEngine) (call : Call) : Except JvmException (Regex E) :=
  compile E call.text call.processed

/-- Run one call on the pool. -/
def Call.run : Call → RegexPool E → Except JvmException (Regex E) × RegexPool E
  | .apply text, pool => RegexPool.apply text pool
  | .regex text, pool => RegexPool.regex text pool

theorem Call.run_eq_getOrCompile (call : Call) (pool : RegexPool E) :
    call.run pool = getOrCompile call.text call.processed pool := by
  cases call <;> rfl

/-- The answers of a sequence of calls, the pool passed from each to the next. -/
def results : RegexPool E → List Call → List (Except JvmException (Regex E))
  | _, [] => []
  | pool, call :: calls => (call.run pool).1 :: results (call.run pool).2 calls

/-- The two calls do not disturb each other in that order: when they use one
text and the first one compiles it, the second one's rule compiles it alike. -/
def Agrees (E : RegexEngine) (first second : Call) : Prop :=
  first.text = second.text → ∀ regex, first.ownResult E = .ok regex →
    second.ownResult E = .ok regex

/-- What is already in the pool for a text is what the call's rule gives. -/
private def Holds (pool : RegexPool E) (call : Call) : Prop :=
  ∀ regex, pool.lookup call.text = some regex → call.ownResult E = .ok regex

private theorem run_of_lookup_some {call : Call} {pool : RegexPool E} {regex : Regex E}
    (h : pool.lookup call.text = some regex) : call.run pool = (.ok regex, pool) := by
  rw [call.run_eq_getOrCompile, getOrCompile, h]

private theorem run_of_lookup_none {call : Call} {pool : RegexPool E}
    (h : pool.lookup call.text = none) :
    call.run pool = (call.ownResult E,
      match call.ownResult E with
      | .ok regex => (call.text, regex) :: pool
      | .error _ => pool) := by
  rw [call.run_eq_getOrCompile, getOrCompile, h, Call.ownResult]
  cases compile E call.text call.processed <;> rfl

/-- The general form over any pool: every answer is the call's own exactly when
the pool already agrees with every call and the calls agree with each other. -/
private theorem results_eq_iff (calls : List Call) (pool : RegexPool E) :
    results pool calls = calls.map (Call.ownResult E) ↔
      (∀ call ∈ calls, Holds pool call) ∧ calls.Pairwise (Agrees E) := by
  induction calls generalizing pool with
  | nil => simp [results]
  | cons call calls ih =>
      rw [results, List.map_cons, List.cons.injEq, ih, List.forall_mem_cons,
        List.pairwise_cons]
      cases hlookup : pool.lookup call.text with
      | some regex =>
          rw [run_of_lookup_some hlookup]
          have hown : Holds pool call ↔ .ok regex = call.ownResult E := by
            simp [Holds, hlookup, eq_comm]
          have hnext : call.ownResult E = .ok regex → (∀ later ∈ calls, Holds pool later) →
              ∀ later ∈ calls, Agrees E call later := by
            intro hcall hpool later hlater htext found hfound
            rw [hcall] at hfound
            cases hfound
            exact hpool later hlater regex (htext ▸ hlookup)
          constructor
          · rintro ⟨hcall, hpool, hpairs⟩
            exact ⟨⟨hown.mpr hcall, hpool⟩, hnext hcall.symm hpool, hpairs⟩
          · rintro ⟨⟨hcall, hpool⟩, -, hpairs⟩
            exact ⟨hown.mp hcall, hpool, hpairs⟩
      | none =>
          rw [run_of_lookup_none hlookup]
          have hown : Holds pool call := by simp [Holds, hlookup]
          cases hcall : call.ownResult E with
          | error e =>
              have hagrees : ∀ later ∈ calls, Agrees E call later := by
                intro later _ _ regex hregex
                simp [hcall] at hregex
              simp only [hown, true_and, and_iff_right hagrees]
          | ok regex =>
              have hstored : ∀ later, Holds ((call.text, regex) :: pool) later ↔
                  Holds pool later ∧ Agrees E call later := by
                intro later
                by_cases htext : later.text = call.text
                · simp [Holds, Agrees, htext, hlookup, hcall]
                · have hne : (later.text == call.text) = false := by simpa using htext
                  simp [Holds, Agrees, List.lookup_cons, hne, Ne.symm htext]
              constructor
              · rintro ⟨-, hpool, hpairs⟩
                exact ⟨⟨hown, fun later hlater => ((hstored later).mp (hpool later hlater)).1⟩,
                  fun later hlater => ((hstored later).mp (hpool later hlater)).2, hpairs⟩
              · rintro ⟨⟨-, hpool⟩, hagrees, hpairs⟩
                exact ⟨rfl, fun later hlater =>
                  (hstored later).mpr ⟨hpool later hlater, hagrees later hlater⟩, hpairs⟩

/-- From an empty pool, every call of a sequence returns what its own rule gives
if and only if no call finds its text already compiled differently by an earlier
call. -/
theorem results_eq_ownResults_iff (E : RegexEngine) (calls : List Call) :
    results ([] : RegexPool E) calls = calls.map (Call.ownResult E) ↔
      calls.Pairwise (Agrees E) := by
  rw [results_eq_iff]
  simp [Holds]

/-- A path pattern first read as a wildcard keeps its escaped dot when it is then
asked for as a regular expression. -/
theorem regex_after_apply_ne_own :
    ¬ ∀ (E : RegexEngine) (calls : List Call),
      results ([] : RegexPool E) calls = calls.map (Call.ownResult E) := by
  intro h
  have hbad := h starEngine [.apply "/admin.*".toList, .regex "/admin.*".toList]
  have hanswers := congrArg (List.map (Except.map fun regex =>
    regex.matchesValue "/admin/users".toList)) hbad
  exact absurd hanswers (by decide)

end RegexPool

/-! ## The pool as its users see it -/

/-- What the shared pool answers for each text. -/
abbrev Pool (E : RegexEngine) := Str → Except JvmException (Regex E)

/-- Look a pattern up in the pool and match a value with it. -/
def poolMatches {E : RegexEngine} (pool : Pool E) (pattern value : Str) :
    Except JvmException Bool := do
  let regex ← pool pattern
  return regex.matchesValue value

end Otoroshi
