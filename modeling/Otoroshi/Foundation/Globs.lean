/-
# Globs

In a glob a star stands for any text, and every other character for itself. `Matches` leaves
open which characters a star may stand for: a glob that is read as a regular expression, with
the dot before its stars, does not go over the end of a line, and finds a text in which a part
matches where the glob asks for the whole.

`found_iff_matches_iff` says for which globs that makes no difference.
-/

import Mathlib.Data.List.Infix
import Otoroshi.Foundation.Pattern
import Otoroshi.Foundation.Splitting

namespace Otoroshi

namespace Glob

/-- What a star stands for, and then what `rest` accepts. -/
def star (stands : Char → Bool) (rest : Str → Bool) : Str → Bool
  | [] => rest []
  | c :: s => rest (c :: s) || (stands c && star stands rest s)

/-- A match of the whole text. -/
def accepts (stands : Char → Bool) : Str → Str → Bool
  | [], s => s.isEmpty
  | '*' :: pattern, s => star stands (accepts stands pattern) s
  | _ :: _, [] => false
  | c :: pattern, d :: s => c == d && accepts stands pattern s

/-- The text is the glob with texts in place of its stars. -/
inductive Matches (stands : Char → Bool) : Str → Str → Prop
  | done : Matches stands [] []
  | star {pattern s skipped : Str} (hskipped : ∀ c ∈ skipped, stands c = true)
      (h : Matches stands pattern s) : Matches stands ('*' :: pattern) (skipped ++ s)
  | char {pattern s : Str} {c : Char} (hc : c ≠ '*') (h : Matches stands pattern s) :
      Matches stands (c :: pattern) (c :: s)

/-- The characters of a glob that stand for themselves. -/
def literal (pattern : Str) : Str := pattern.filter (· != '*')

/-- A star stands for any text. -/
abbrev anything : Char → Bool := fun _ => true

/-- A star stands for a text on one line. -/
abbrev inLine : Char → Bool := fun c => !StarPattern.isLineTerminator c

/-- A part of the text matches on one line. -/
def Found (pattern s : Str) : Prop := ∃ part, part <:+: s ∧ Matches inLine pattern part

variable {stands : Char → Bool} {pattern other s : Str}

theorem star_iff {rest : Str → Bool} : star stands rest s = true ↔
    ∃ skipped left, s = skipped ++ left ∧ (∀ c ∈ skipped, stands c = true) ∧ rest left = true := by
  induction s with
  | nil => simp [star]
  | cons c s ih =>
      rw [star, Bool.or_eq_true, Bool.and_eq_true, ih]
      refine ⟨fun h => ?_, fun h => ?_⟩
      · rcases h with hrest | ⟨hc, skipped, left, rfl, hskipped, hleft⟩
        · exact ⟨[], c :: s, rfl, by simp, hrest⟩
        · exact ⟨c :: skipped, left, rfl, List.forall_mem_cons.mpr ⟨hc, hskipped⟩, hleft⟩
      · obtain ⟨skipped, left, hsame, hskipped, hleft⟩ := h
        cases skipped with
        | nil =>
            rw [List.nil_append] at hsame
            exact .inl (hsame ▸ hleft)
        | cons d skipped =>
            rw [List.cons_append, List.cons.injEq] at hsame
            rw [List.forall_mem_cons, ← hsame.1] at hskipped
            exact .inr ⟨hskipped.1, skipped, left, hsame.2, hskipped.2, hleft⟩

theorem matches_star_iff : Matches stands ('*' :: pattern) s ↔
    ∃ skipped left, s = skipped ++ left ∧ (∀ c ∈ skipped, stands c = true) ∧
      Matches stands pattern left := by
  refine ⟨fun h => ?_, fun h => ?_⟩
  · cases h with
    | star hskipped h => exact ⟨_, _, rfl, hskipped, h⟩
    | char hc => exact absurd rfl hc
  · obtain ⟨skipped, left, rfl, hskipped, hleft⟩ := h
    exact .star hskipped hleft

theorem matches_char_iff {c : Char} (hc : c ≠ '*') : Matches stands (c :: pattern) s ↔
    ∃ left, s = c :: left ∧ Matches stands pattern left := by
  refine ⟨fun h => ?_, fun h => ?_⟩
  · cases h with
    | star => exact absurd rfl hc
    | char _ h => exact ⟨_, rfl, h⟩
  · obtain ⟨left, rfl, hleft⟩ := h
    exact .char hc hleft

theorem matches_nil_iff : Matches stands [] s ↔ s = [] := by
  refine ⟨fun h => ?_, fun h => ?_⟩
  · cases h
    rfl
  · rw [h]
    exact .done

theorem accepts_star : accepts stands ('*' :: pattern) s =
    star stands (accepts stands pattern) s := by
  cases s <;> rfl

theorem accepts_char {c : Char} (hc : c ≠ '*') (d : Char) :
    accepts stands (c :: pattern) (d :: s) = (c == d && accepts stands pattern s) := by
  simp [accepts]

theorem accepts_iff : accepts stands pattern s = true ↔ Matches stands pattern s := by
  induction pattern generalizing s with
  | nil => rw [matches_nil_iff, accepts, List.isEmpty_iff]
  | cons c pattern ih =>
      by_cases hc : c = '*'
      · rw [hc, accepts_star, star_iff, matches_star_iff]
        simp only [ih]
      · rw [matches_char_iff hc]
        cases s with
        | nil => simp [accepts]
        | cons d s =>
            rw [accepts_char hc, Bool.and_eq_true, beq_iff_eq, ih]
            simp [eq_comm]

instance (stands : Char → Bool) (pattern s : Str) : Decidable (Matches stands pattern s) :=
  decidable_of_iff _ accepts_iff

theorem Matches.mono {wider : Char → Bool} (h : Matches stands pattern s)
    (hstands : ∀ c, stands c = true → wider c = true) : Matches wider pattern s := by
  induction h with
  | done => exact .done
  | star hskipped _ ih => exact .star (fun c hc => hstands c (hskipped c hc)) ih
  | char hc _ ih => exact .char hc ih

theorem matches_append_iff : Matches stands (pattern ++ other) s ↔
    ∃ left right, s = left ++ right ∧ Matches stands pattern left ∧ Matches stands other right := by
  induction pattern generalizing s with
  | nil => simp [matches_nil_iff]
  | cons c pattern ih =>
      rw [List.cons_append]
      by_cases hc : c = '*'
      · subst hc
        simp only [matches_star_iff, ih]
        refine ⟨?_, ?_⟩
        · rintro ⟨skipped, _, rfl, hskipped, left, right, rfl, hleft, hright⟩
          exact ⟨skipped ++ left, right, (List.append_assoc _ _ _).symm,
            ⟨skipped, left, rfl, hskipped, hleft⟩, hright⟩
        · rintro ⟨_, right, rfl, ⟨skipped, left, rfl, hskipped, hleft⟩, hright⟩
          exact ⟨skipped, left ++ right, List.append_assoc _ _ _, hskipped, left, right, rfl,
            hleft, hright⟩
      · simp only [matches_char_iff hc, ih]
        refine ⟨?_, ?_⟩
        · rintro ⟨_, rfl, left, right, rfl, hleft, hright⟩
          exact ⟨c :: left, right, rfl, ⟨left, rfl, hleft⟩, hright⟩
        · rintro ⟨_, right, rfl, ⟨left, rfl, hleft⟩, hright⟩
          exact ⟨left ++ right, rfl, left, right, rfl, hleft, hright⟩

/-- Stars may stand for nothing. -/
theorem matches_literal (pattern : Str) : Matches stands pattern (literal pattern) := by
  induction pattern with
  | nil => exact .done
  | cons c pattern ih =>
      by_cases hc : c = '*'
      · subst hc
        exact @Matches.star _ _ _ [] (by simp) ih
      · have hkeep : literal (c :: pattern) = c :: literal pattern := by simp [literal, hc]
        rw [hkeep]
        exact .char hc ih

theorem Matches.length_literal_le (h : Matches stands pattern s) :
    (literal pattern).length ≤ s.length := by
  induction h with
  | done => exact Nat.le_refl 0
  | star hskipped _ ih =>
      rw [List.length_append]
      exact Nat.le_trans ih (Nat.le_add_left _ _)
  | @char pattern s c hc _ ih =>
      have hkeep : literal (c :: pattern) = c :: literal pattern := by simp [literal, hc]
      rw [hkeep]
      exact Nat.succ_le_succ ih

/-- What no star stands for comes from the glob. -/
theorem Matches.mem_of_not_stands (h : Matches stands pattern s) {c : Char} (hmem : c ∈ s)
    (hc : stands c = false) : c ∈ pattern := by
  induction h with
  | done => exact hmem
  | star hskipped _ ih =>
      rcases List.mem_append.mp hmem with hmem | hmem
      · exact absurd (hskipped c hmem) (by simp [hc])
      · exact List.mem_cons_of_mem _ (ih hmem)
  | char _ _ ih =>
      rcases List.mem_cons.mp hmem with rfl | hmem
      · exact List.mem_cons_self
      · exact List.mem_cons_of_mem _ (ih hmem)

/-! ## Parts and wholes -/

/-- The glob starts and ends with a star, and no star stands between literal characters. -/
structure IsSearch (pattern : Str) : Prop where
  head : pattern.head? = some '*'
  last : pattern.getLast? = some '*'
  inner : ∀ before behind, pattern = before ++ '*' :: behind →
    literal before = [] ∨ literal behind = []

theorem found_of_infix_literal (h : literal pattern <:+: s) : Found pattern s :=
  ⟨literal pattern, h, matches_literal pattern⟩

theorem literal_cons_of_ne {c : Char} (hc : c ≠ '*') : literal (c :: pattern) =
    c :: literal pattern := by
  simp [literal, hc]

theorem literal_star (pattern : Str) : literal ('*' :: pattern) = literal pattern := rfl

/-- Stars at the end leave the literal characters together. -/
theorem Matches.literal_begins (h : Matches stands pattern s)
    (hstars : ∀ before behind, pattern = before ++ '*' :: behind → literal behind = []) :
    literal pattern <+: s := by
  induction h with
  | done => exact List.nil_prefix
  | star _ _ _ =>
      rw [literal_star, hstars [] _ rfl]
      exact List.nil_prefix
  | @char pattern s c hc _ ih =>
      rw [literal_cons_of_ne hc]
      refine List.cons_prefix_cons.mpr ⟨rfl, ih fun before behind hsplit => ?_⟩
      exact hstars (c :: before) behind (by rw [hsplit, List.cons_append])

/-- And so do stars at both ends. -/
theorem Matches.literal_inside (h : Matches stands pattern s)
    (hinner : ∀ before behind, pattern = before ++ '*' :: behind →
      literal before = [] ∨ literal behind = []) : literal pattern <:+: s := by
  induction h with
  | done => exact List.infix_rfl
  | @star pattern s skipped _ _ ih =>
      rw [literal_star]
      refine (ih fun before behind hsplit => ?_).trans (List.suffix_append skipped s).isInfix
      exact hinner ('*' :: before) behind (by rw [hsplit, List.cons_append])
  | @char pattern s c hc h _ =>
      refine ((Matches.char hc h).literal_begins fun before behind hsplit => ?_).isInfix
      cases before with
      | nil => exact absurd (List.cons.inj hsplit).1 hc
      | cons d before =>
          have hd : d ≠ '*' := (List.cons.inj hsplit).1 ▸ hc
          refine (hinner _ behind hsplit).resolve_left ?_
          rw [literal_cons_of_ne hd]
          exact List.cons_ne_nil _ _

/-- Stars at both ends reach over what stands around a part. -/
theorem Matches.extend (h : Matches anything pattern s) (hhead : pattern.head? = some '*')
    (hlast : pattern.getLast? = some '*') (before behind : Str) :
    Matches anything pattern (before ++ s ++ behind) := by
  have hfront : Matches anything pattern (before ++ s) := by
    obtain ⟨rest, rfl⟩ := List.head?_eq_some_iff.mp hhead
    obtain ⟨skipped, left, rfl, -, hleft⟩ := matches_star_iff.mp h
    rw [← List.append_assoc]
    exact .star (fun _ _ => rfl) hleft
  obtain ⟨front, rfl⟩ := List.getLast?_eq_some_iff.mp hlast
  obtain ⟨left, right, hsplit, hleft, -⟩ := matches_append_iff.mp hfront
  rw [hsplit, List.append_assoc]
  refine matches_append_iff.mpr ⟨left, right ++ behind, rfl, hleft, ?_⟩
  rw [← List.append_nil (right ++ behind)]
  exact .star (fun _ _ => rfl) .done

theorem IsSearch.found_iff (h : IsSearch pattern) :
    Found pattern s ↔ Matches anything pattern s := by
  refine ⟨fun hfound => ?_, fun hmatches => found_of_infix_literal (hmatches.literal_inside h.inner)⟩
  obtain ⟨part, ⟨before, behind, rfl⟩, hpart⟩ := hfound
  exact (hpart.mono fun _ _ => rfl).extend h.head h.last before behind

theorem exists_ne (c : Char) : ∃ d : Char, d ≠ c := by
  by_cases h : c = 'a'
  · exact ⟨'b', by rw [h]; decide⟩
  · exact ⟨'a', Ne.symm h⟩

/-- The literal characters are found behind and before any others. -/
theorem found_around (before behind : Str) : Found pattern (before ++ literal pattern ++ behind) :=
  found_of_infix_literal ⟨before, behind, rfl⟩

/-- A glob for which the part and the whole make no difference has this form. Characters before
and behind a part show the stars at the ends, and the end of a line the stars in between. -/
theorem isSearch_of_forall (hline : '\n' ∉ pattern)
    (h : ∀ s, Found pattern s → Matches anything pattern s)
    (h' : ∀ s, Matches anything pattern s → Found pattern s) : IsSearch pattern := by
  refine ⟨?_, ?_, ?_⟩
  · cases pattern with
    | nil =>
        have hmatches := h ['a'] (found_around [] ['a'])
        cases hmatches
    | cons c pattern =>
        by_cases hc : c = '*'
        · rw [hc, List.head?_cons]
        · obtain ⟨d, hd⟩ := exists_ne c
          obtain ⟨left, hsame, -⟩ := (matches_char_iff hc).mp (h _ (found_around [d] []))
          exact absurd (List.cons.inj hsame).1 hd
  · rcases List.eq_nil_or_concat' pattern with rfl | ⟨front, c, rfl⟩
    · have hmatches := h ['a'] (found_around [] ['a'])
      cases hmatches
    · by_cases hc : c = '*'
      · rw [hc, List.getLast?_concat]
      · obtain ⟨d, hd⟩ := exists_ne c
        obtain ⟨left, right, hsame, -, hright⟩ := matches_append_iff.mp (h _ (found_around [] [d]))
        obtain ⟨last, rfl, hnil⟩ := (matches_char_iff hc).mp hright
        rw [matches_nil_iff.mp hnil] at hsame
        exact absurd (List.append_inj' hsame rfl).2 (by simpa using hd)
  · rintro before behind rfl
    by_contra hboth
    rw [not_or] at hboth
    have hmatches : Matches anything (before ++ '*' :: behind)
        (literal before ++ ('\n' :: literal behind)) :=
      matches_append_iff.mpr ⟨_, _, rfl, matches_literal before,
        @Matches.star _ _ _ ['\n'] (fun _ _ => rfl) (matches_literal behind)⟩
    obtain ⟨part, hinside, hpart⟩ := h' _ hmatches
    have hlength := hpart.length_literal_le
    have hliteral : literal (before ++ '*' :: behind) = literal before ++ literal behind := by
      simp [literal]
    have hfirst := List.length_pos_of_ne_nil hboth.1
    have hsecond := List.length_pos_of_ne_nil hboth.2
    rw [hliteral, List.length_append] at hlength
    -- a part on one line is on one side of the end of a line
    have hone : '\n' ∉ part := fun hmem => hline (hpart.mem_of_not_stands hmem rfl)
    rcases infix_append_cons hone hinside with hside | hside
    · have hle := hside.length_le
      omega
    · have hle := hside.length_le
      omega

theorem found_iff_matches_iff (hline : '\n' ∉ pattern) :
    (∀ s, Found pattern s ↔ Matches anything pattern s) ↔ IsSearch pattern :=
  ⟨fun h => isSearch_of_forall hline (fun s => (h s).mp) fun s => (h s).mpr,
    fun h _ => h.found_iff⟩

/-! ## Globs as patterns -/

section Patterns

/-- The glob has no character that a regular expression reads in its own way. -/
def isPlain (pattern : Str) : Bool := pattern.all fun c => c == '*' || !StarPattern.isMeta c

/-- The text a glob is compiled from. -/
def source (pattern : Str) : Str := replaceChar pattern '*' ".*".toList

/-- What it is compiled to. -/
def items (pattern : Str) : List StarPattern.Item :=
  pattern.map fun c => if c = '*' then (.any, true) else (.char c, false)

/-- What the characters of its text are read as. -/
def atoms (pattern : Str) : List (Option StarPattern.Atom) :=
  pattern.flatMap fun c => if c = '*' then [some .any, none] else [some (.char c)]

theorem lex_source (h : isPlain pattern = true) :
    StarPattern.lex (source pattern) = some (atoms pattern) := by
  induction pattern with
  | nil => rfl
  | cons c pattern ih =>
      rw [isPlain, List.all_cons, Bool.and_eq_true] at h
      have hrest := ih h.2
      by_cases hc : c = '*'
      · subst hc
        have hsource : source ('*' :: pattern) = '.' :: '*' :: source pattern := rfl
        have hatoms : atoms ('*' :: pattern) = some .any :: none :: atoms pattern := rfl
        rw [hsource, hatoms, StarPattern.lex, StarPattern.lex, hrest]
        rfl
      · have hmeta : StarPattern.isMeta c = false := by simpa [hc] using h.1
        have hsource : source (c :: pattern) = c :: source pattern := by
          simp [source, replaceChar, hc]
        have hatoms : atoms (c :: pattern) = some (.char c) :: atoms pattern := by
          simp [atoms, hc]
        have hbackslash : c ≠ '\\' := by
          rintro rfl
          cases hmeta
        have hdot : c ≠ '.' := by
          rintro rfl
          cases hmeta
        rw [hsource, hatoms, StarPattern.lex.eq_5 _ _ (fun _ _ h _ => hbackslash h) hdot hc]
        simp [hmeta, hrest]

/-- No star is dangling. -/
theorem attach_cons_atoms (atom : StarPattern.Atom) (pattern : Str) :
    StarPattern.attach (some atom :: atoms pattern) =
      (StarPattern.attach (atoms pattern)).map ((atom, false) :: ·) := by
  cases pattern with
  | nil => rfl
  | cons c pattern =>
      by_cases hc : c = '*'
      · subst hc
        rfl
      · have hatoms : atoms (c :: pattern) = some (.char c) :: atoms pattern := by
          simp [atoms, hc]
        rw [hatoms]
        rfl

theorem attach_atoms (pattern : Str) : StarPattern.attach (atoms pattern) = some (items pattern) := by
  induction pattern with
  | nil => rfl
  | cons c pattern ih =>
      by_cases hc : c = '*'
      · subst hc
        have hatoms : atoms ('*' :: pattern) = some .any :: none :: atoms pattern := rfl
        rw [hatoms, StarPattern.attach, ih]
        rfl
      · have hatoms : atoms (c :: pattern) = some (.char c) :: atoms pattern := by
          simp [atoms, hc]
        rw [hatoms, attach_cons_atoms, ih]
        simp [items, hc]

theorem compile_source (h : isPlain pattern = true) :
    starEngine.compile (source pattern) = some (items pattern) := by
  have hlex := lex_source h
  simp only [starEngine, hlex, Option.bind_some, attach_atoms]

theorem acceptsStar_any (rest : Str → Bool) :
    StarPattern.acceptsStar .any rest = star inLine rest := by
  funext s
  induction s with
  | nil => rfl
  | cons c s ih => rw [StarPattern.acceptsStar, star, ih, StarPattern.Atom.accepts]

/-- The dot before a star keeps it on one line. -/
theorem accepts_items (pattern : Str) :
    StarPattern.accepts (items pattern) = accepts inLine pattern := by
  induction pattern with
  | nil =>
      funext s
      cases s <;> rfl
  | cons c pattern ih =>
      funext s
      by_cases hc : c = '*'
      · have hitems : items (c :: pattern) = (.any, true) :: items pattern := by simp [items, hc]
        rw [hitems, hc, accepts_star, StarPattern.accepts, acceptsStar_any, ih]
      · have hitems : items (c :: pattern) = (.char c, false) :: items pattern := by
          simp [items, hc]
        rw [hitems]
        cases s with
        | nil => simp [StarPattern.accepts, accepts]
        | cons d s =>
            rw [accepts_char hc, StarPattern.accepts, ih, StarPattern.Atom.accepts]

/-- A part of the text matches the pattern. -/
def finds (items : List StarPattern.Item) (s : Str) : Bool :=
  s.tails.any fun rest => rest.inits.any (StarPattern.accepts items)

theorem finds_items_iff : finds (items pattern) s = true ↔ Found pattern s := by
  simp only [finds, Found, List.any_eq_true, List.mem_tails, List.mem_inits, accepts_items,
    accepts_iff, List.infix_iff_prefix_suffix]
  refine ⟨?_, ?_⟩
  · rintro ⟨rest, hrest, part, hpart, h⟩
    exact ⟨part, ⟨rest, hpart, hrest⟩, h⟩
  · rintro ⟨part, ⟨rest, hpart, hrest⟩, h⟩
    exact ⟨rest, hrest, part, hpart, h⟩

end Patterns

end Glob

end Otoroshi
