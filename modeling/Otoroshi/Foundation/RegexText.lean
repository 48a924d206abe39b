/-
# The text of a regular expression

The platform reads a regular expression in two passes. The first resolves the quotes: what
stands between `\Q` and `\E` is rewritten so that each of its characters stands for itself. The
second reads the constructs of what is left. A token is a code point of that text with the place
of the source it was written at, and none where the first pass put it in.

Capturing groups are numbered by their opening parentheses, from the left. Whether a parenthesis
opens one is decided by what stands before it, since it may be escaped, in a class or in a
comment, and by what follows it, since `(?` opens another construct unless it gives a name.
-/

import Mathlib.Algebra.Ring.Nat
import Otoroshi.Foundation.CodeUnits

namespace Otoroshi

namespace JavaRegex

/-- A code point of the text, and where the source has it. -/
structure Token where
  origin : Option Nat
  point : CodePoint
  deriving DecidableEq

namespace Token

def isChar (t : Token) (c : Char) : Bool := t.point == .ofChar c

theorem isChar_iff {t : Token} {c : Char} :
    t.isChar c = true ↔ t.point = .single (codeUnit c) := by
  rw [isChar, beq_iff_eq, CodePoint.ofChar]

/-- A token that the source does not have. -/
def inserted (c : Char) : Token := ⟨none, .ofChar c⟩

end Token

/-- The tokens of some code points, the first of which stands at `start`. -/
def tokensFrom : Nat → List CodePoint → List Token
  | _, [] => []
  | start, p :: points => ⟨some start, p⟩ :: tokensFrom (start + p.units.length) points

/-! ## Quotes -/

/-- Where the first pass is: outside of quotes, right behind `\Q`, or further in a quote. -/
inductive Quoting
  | outside
  | opened
  | inside
  deriving DecidableEq

def isAscii (t : Token) : Bool :=
  match t.point with
  | .single u => u < 0x80
  | .pair _ _ => false

def isAlpha (t : Token) : Bool :=
  match t.point with
  | .single u => (97 ≤ u && u ≤ 122) || (65 ≤ u && u ≤ 90)
  | .pair _ _ => false

/-- The value of a decimal digit. -/
def digit? (t : Token) : Option Nat :=
  match t.point with
  | .single u => if 48 ≤ u && u ≤ 57 then some (u.toNat - 48) else none
  | .pair _ _ => none

/-- A character of a quote, so written that it stands for itself. -/
def quote (opened : Bool) (t : Token) : List Token :=
  if !isAscii t || isAlpha t then [t]
  -- a digit at the start of a quote could be read on with an escape that stands before it
  else if (digit? t).isSome then
    if opened then [.inserted '\\', .inserted 'x', .inserted '3', t] else [t]
  else [.inserted '\\', t]

/-- `RemoveQEQuoting`. -/
def removeQEQuoting : Quoting → List Token → List Token
  | _, [] => []
  | .outside, [t] => [t]
  | .outside, t :: u :: rest =>
      if t.isChar '\\' then
        if u.isChar 'Q' then removeQEQuoting .opened rest
        else t :: u :: removeQEQuoting .outside rest
      else t :: removeQEQuoting .outside (u :: rest)
  | quoting, [t] => quote (quoting = .opened) t
  | quoting, t :: u :: rest =>
      if t.isChar '\\' && u.isChar 'E' then removeQEQuoting .outside rest
      else quote (quoting = .opened) t ++ removeQEQuoting .inside (u :: rest)

/-- The tokens of a source, without its quotes. -/
def tokens (source : Utf16) : List Token :=
  removeQEQuoting .outside (tokensFrom 0 (decode source))

/-! ## Groups -/

/-- The embedded flags that decide where a construct of the text ends. -/
structure Flags where
  comments : Bool
  unixLines : Bool
  deriving DecidableEq

/-- What a class has read: nothing, no more than its negation, or a part of its set. -/
inductive ClassPlace
  | fresh
  | empty
  | filled
  deriving DecidableEq

/-- What the characters before commit the next one to. -/
inductive Pending
  | nothing
  | escaped
  | control
  | flags (saved : Flags) (off : Bool)
  deriving DecidableEq

/-- A place of the text: the flags in force, those to restore at each closing parenthesis, the
classes that are open, the innermost first, and what is pending. -/
structure Place where
  flags : Flags
  outer : List Flags
  classes : List ClassPlace
  pending : Pending
  inComment : Bool
  deriving DecidableEq

/-- The place a text starts at: no flag is on. -/
def Place.start : Place := ⟨⟨false, false⟩, [], [], .nothing, false⟩

def isSpace (t : Token) : Bool :=
  match t.point with
  | .single u => (9 ≤ u && u ≤ 13) || u == 32
  | .pair _ _ => false

def isLineSeparator (flags : Flags) (t : Token) : Bool :=
  if flags.unixLines then t.isChar '\n'
  else t.isChar '\n' || t.isChar '\r' || t.isChar '\u2028' || t.isChar '\u2029' ||
    t.isChar '\u0085'

/-- `peekPastWhitespace`, in the mode that permits comments. -/
def pastWhitespace (flags : Flags) : Bool → List Token → List Token
  | _, [] => []
  | inComment, t :: rest =>
      if inComment && !isLineSeparator flags t then pastWhitespace flags true rest
      else if isSpace t then pastWhitespace flags false rest
      else if t.isChar '#' then pastWhitespace flags true rest
      else t :: rest

/-- What an opening parenthesis opens. -/
inductive Opening
  | capturing
  | special
  | directive
  deriving DecidableEq

/-- `group0`, on what follows the parenthesis. -/
def opening (flags : Flags) (rest : List Token) : Opening :=
  match if flags.comments then pastWhitespace flags false rest else rest with
  | [] => .capturing
  | t :: next =>
      if !t.isChar '?' then .capturing
      else match next with
        | [] => .directive
        | c :: more =>
            if c.isChar ':' || c.isChar '=' || c.isChar '!' || c.isChar '>' then .special
            else if c.isChar '<' then
              -- behind `(?<` stands a lookbehind or the name of a group
              if more.head?.any fun d => d.isChar '=' || d.isChar '!' then .special
              else .capturing
            else .directive

namespace Place

/-- Nothing is pending and no class or comment is open. -/
def isPlain (s : Place) : Bool :=
  s.pending == .nothing && s.classes.isEmpty && !s.inComment

/-- A character of the innermost open class has been read. -/
def fill (s : Place) : Place :=
  match s.classes with
  | [] => s
  | _ :: outside => { s with classes := .filled :: outside }

/-- A character that the flags make ignorable ends the place a negation may stand at. -/
def ignore (s : Place) : Place :=
  match s.classes with
  | .fresh :: outside => { s with classes := .empty :: outside }
  | _ => s

def escape (s : Place) (t : Token) : Place :=
  { s with pending := if t.isChar 'c' then .control else .nothing }

/-- `addFlag` and `subFlag`, up to the parenthesis or the colon that ends them. -/
def flag (s : Place) (saved : Flags) (off : Bool) (t : Token) : Place :=
  if t.isChar 'x' then { s with flags := { s.flags with comments := !off } }
  else if t.isChar 'd' then { s with flags := { s.flags with unixLines := !off } }
  else if t.isChar '-' then { s with pending := .flags saved true }
  else if t.isChar ')' then { s with pending := .nothing }
  else if t.isChar ':' then { s with pending := .nothing, outer := saved :: s.outer }
  else s

/-- `clazz`, one character. -/
def inClass (s : Place) (innermost : ClassPlace) (outside : List ClassPlace) (t : Token) : Place :=
  if t.isChar '\\' then { s with classes := .filled :: outside, pending := .escaped }
  else if t.isChar '[' then { s with classes := .fresh :: .filled :: outside }
  else if t.isChar ']' then
    -- a bracket that would close an empty class stands for itself
    if innermost = .filled then { s with classes := outside }
    else { s with classes := .filled :: outside }
  else if t.isChar '^' && innermost = .fresh then { s with classes := .empty :: outside }
  else { s with classes := .filled :: outside }

/-- A character outside of classes, with what follows it. -/
def outsideClasses (s : Place) (t : Token) (rest : List Token) : Place :=
  if t.isChar '\\' then { s with pending := .escaped }
  else if t.isChar '[' then { s with classes := [.fresh] }
  else if t.isChar '(' then
    if opening s.flags rest = .directive then { s with pending := .flags s.flags false }
    else { s with outer := s.flags :: s.outer }
  else if t.isChar ')' then
    { s with flags := s.outer.headD s.flags, outer := s.outer.tail }
  else s

/-- A character that is neither escaped nor ignored. -/
def read (s : Place) (t : Token) (rest : List Token) : Place :=
  match s.pending, s.classes with
  | .control, _ => { s with pending := .nothing }
  | .flags saved off, _ => s.flag saved off t
  | _, innermost :: outside => s.inClass innermost outside t
  | _, [] => s.outsideClasses t rest

/-- The place behind one more character. -/
def step (s : Place) (t : Token) (rest : List Token) : Place :=
  if s.inComment && !isLineSeparator s.flags t then s
  else if s.pending = .escaped then s.escape t
  else if s.flags.comments && isSpace t then { s.ignore with inComment := false }
  else if s.flags.comments && t.isChar '#' then { s.ignore with inComment := true }
  else { s with inComment := false }.read t rest

/-- The place behind some characters, with what follows them. -/
def scan (s : Place) : List Token → List Token → Place
  | [], _ => s
  | t :: before, rest => (s.step t (before ++ rest)).scan before rest

/-- The character opens a capturing group. -/
def captures (s : Place) (t : Token) (rest : List Token) : Bool :=
  s.isPlain && t.isChar '(' && opening s.flags rest = .capturing

/-- Where the source opens its capturing groups, in their order. -/
def groups (s : Place) : List Token → List Nat
  | [] => []
  | t :: rest =>
      (if s.captures t rest then t.origin.toList else []) ++ (s.step t rest).groups rest

end Place

/-- The capturing groups of a source, each by the place of its parenthesis. -/
def groups (source : Utf16) : List Nat := Place.start.groups (tokens source)

/-- The source opens a capturing group at `k`. -/
def OpensAt (source : Utf16) (k : Nat) : Prop :=
  ∃ before t rest, tokens source = before ++ t :: rest ∧ t.origin = some k ∧
    (Place.start.scan before (t :: rest)).captures t rest

/-! ## Text without quotes -/

theorem tokensFrom_append (start : Nat) (points others : List CodePoint) :
    tokensFrom start (points ++ others) =
      tokensFrom start points ++
        tokensFrom (start + (points.flatMap CodePoint.units).length) others := by
  induction points generalizing start with
  | nil => rfl
  | cons p points ih =>
      rw [List.cons_append, tokensFrom, ih, tokensFrom, List.flatMap_cons, List.length_append,
        Nat.add_assoc, List.cons_append]

@[simp]
theorem map_point_tokensFrom (start : Nat) (points : List CodePoint) :
    (tokensFrom start points).map Token.point = points := by
  induction points generalizing start with
  | nil => rfl
  | cons p points ih => rw [tokensFrom, List.map_cons, ih]

/-- A character that the text does not have is none of its tokens. -/
theorem isChar_of_notMem {s : Utf16} {c : Char} (hc : codeUnit c ∉ s) (start : Nat) :
    ∀ t ∈ tokensFrom start (decode s), t.isChar c = false := by
  intro t ht
  by_contra his
  have hpoint := Token.isChar_iff.mp (eq_true_of_ne_false his)
  apply hc
  apply CodePoint.mem_of_mem_decode
  rw [← map_point_tokensFrom start (decode s), ← hpoint]
  exact List.mem_map_of_mem ht

theorem removeQEQuoting_cons {t : Token} (ht : t.isChar '\\' = false) (ts : List Token) :
    removeQEQuoting .outside (t :: ts) = t :: removeQEQuoting .outside ts := by
  cases ts with
  | nil => rfl
  | cons u ts => rw [removeQEQuoting, ht, if_neg Bool.false_ne_true]

/-- The first pass leaves text without a backslash as it is. -/
theorem removeQEQuoting_append {ts : List Token} (h : ∀ t ∈ ts, t.isChar '\\' = false)
    (more : List Token) :
    removeQEQuoting .outside (ts ++ more) = ts ++ removeQEQuoting .outside more := by
  induction ts with
  | nil => rfl
  | cons t ts ih =>
      rw [List.cons_append, removeQEQuoting_cons (h t List.mem_cons_self),
        ih fun u hu => h u (List.mem_cons_of_mem _ hu), List.cons_append]

section Escapes

variable {c : Char} (hc : ∀ d ∈ ['\\', 'x', '3'], (Token.inserted d).isChar c = false)

include hc

theorem isChar_of_mem_quote {opened : Bool} {t : Token} (ht : t.isChar c = false) :
    ∀ u ∈ quote opened t, u.isChar c = false := by
  have hslash := hc '\\' (by simp)
  have hx := hc 'x' (by simp)
  have hthree := hc '3' (by simp)
  unfold quote
  split_ifs
  · simp [ht]
  · simp [ht, hslash, hx, hthree]
  · simp [ht]
  · simp [ht, hslash]

/-- The first pass puts in no character but those of its escapes. -/
theorem isChar_of_mem_removeQEQuoting {quoting : Quoting} {ts : List Token}
    (h : ∀ t ∈ ts, t.isChar c = false) :
    ∀ t ∈ removeQEQuoting quoting ts, t.isChar c = false := by
  induction quoting, ts using removeQEQuoting.induct with
  | case1 quoting => simp [removeQEQuoting]
  | case2 t => simpa [removeQEQuoting] using h
  | case3 t u rest ht hu ih =>
      rw [removeQEQuoting, if_pos ht, if_pos hu]
      exact ih fun v hv => h v (List.mem_cons_of_mem _ (List.mem_cons_of_mem _ hv))
  | case4 t u rest ht hu ih =>
      rw [removeQEQuoting, if_pos ht, if_neg hu, List.forall_mem_cons, List.forall_mem_cons]
      rw [List.forall_mem_cons, List.forall_mem_cons] at h
      exact ⟨h.1, h.2.1, ih h.2.2⟩
  | case5 t u rest ht ih =>
      rw [removeQEQuoting, if_neg ht, List.forall_mem_cons]
      rw [List.forall_mem_cons] at h
      exact ⟨h.1, ih h.2⟩
  | case6 quoting t hquoting =>
      have hquote : ∀ opened, ∀ u ∈ quote opened t, u.isChar c = false := fun opened =>
        isChar_of_mem_quote hc (h t List.mem_cons_self)
      cases quoting with
      | outside => exact absurd rfl hquoting
      | opened => exact hquote _
      | inside => exact hquote _
  | case7 quoting t u rest hquoting hend ih =>
      rw [removeQEQuoting.eq_5 _ _ _ _ hquoting, if_pos hend]
      exact ih fun v hv => h v (List.mem_cons_of_mem _ (List.mem_cons_of_mem _ hv))
  | case8 quoting t u rest hquoting hend ih =>
      rw [removeQEQuoting.eq_5 _ _ _ _ hquoting, if_neg hend]
      intro v hv
      rcases List.mem_append.mp hv with hv | hv
      · exact isChar_of_mem_quote hc (h t List.mem_cons_self) v hv
      · exact ih (fun w hw => h w (List.mem_cons_of_mem _ hw)) v hv

end Escapes

/-! ## The places of the groups -/

/-- The places of the source that some tokens have. -/
def origins (ts : List Token) : List Nat := ts.filterMap Token.origin

@[simp]
theorem origins_nil : origins [] = [] := rfl

theorem origins_cons (t : Token) (ts : List Token) :
    origins (t :: ts) = t.origin.toList ++ origins ts := by
  cases h : t.origin <;> simp [origins, h]

theorem origins_append (ts us : List Token) : origins (ts ++ us) = origins ts ++ origins us :=
  List.filterMap_append

theorem origins_quote (opened : Bool) (t : Token) :
    origins (quote opened t) = t.origin.toList := by
  have hone : origins [t] = t.origin.toList := by rw [origins_cons, origins_nil, List.append_nil]
  unfold quote
  split_ifs
  · exact hone
  · exact hone
  · exact hone
  · exact hone

/-- The first pass keeps the order of the characters, and has each of them at most once. -/
theorem origins_removeQEQuoting (quoting : Quoting) (ts : List Token) :
    (origins (removeQEQuoting quoting ts)).Sublist (origins ts) := by
  induction quoting, ts using removeQEQuoting.induct with
  | case1 quoting => simp [removeQEQuoting]
  | case2 t => exact List.Sublist.refl _
  | case3 t u rest ht hu ih =>
      rw [removeQEQuoting, if_pos ht, if_pos hu, origins_cons, origins_cons]
      exact (ih.trans (List.sublist_append_right _ _)).trans (List.sublist_append_right _ _)
  | case4 t u rest ht hu ih =>
      rw [removeQEQuoting, if_pos ht, if_neg hu]
      simp only [origins_cons]
      exact (ih.append_left _).append_left _
  | case5 t u rest ht ih =>
      rw [removeQEQuoting, if_neg ht, origins_cons, origins_cons t]
      exact ih.append_left _
  | case6 quoting t hquoting =>
      cases quoting with
      | outside => exact absurd rfl hquoting
      | opened => simp [removeQEQuoting, origins_quote, origins_cons]
      | inside => simp [removeQEQuoting, origins_quote, origins_cons]
  | case7 quoting t u rest hquoting hend ih =>
      rw [removeQEQuoting.eq_5 _ _ _ _ hquoting, if_pos hend, origins_cons, origins_cons]
      exact (ih.trans (List.sublist_append_right _ _)).trans (List.sublist_append_right _ _)
  | case8 quoting t u rest hquoting hend ih =>
      rw [removeQEQuoting.eq_5 _ _ _ _ hquoting, if_neg hend, origins_append, origins_quote,
        origins_cons t]
      exact ih.append_left _

theorem le_of_mem_origins {start k : Nat} {points : List CodePoint}
    (h : k ∈ origins (tokensFrom start points)) : start ≤ k := by
  induction points generalizing start with
  | nil => cases h
  | cons p points ih =>
      rw [tokensFrom, origins_cons, List.mem_append] at h
      rcases h with h | h
      · exact (List.mem_singleton.mp h).ge
      · exact (Nat.le_add_right _ _).trans (ih h)

theorem pairwise_origins (start : Nat) (points : List CodePoint) :
    (origins (tokensFrom start points)).Pairwise (· < ·) := by
  induction points generalizing start with
  | nil => exact List.Pairwise.nil
  | cons p points ih =>
      rw [tokensFrom, origins_cons]
      refine List.pairwise_cons.mpr ⟨fun k hk => ?_, ih _⟩
      have hle := le_of_mem_origins hk
      have hpos := p.units_pos
      omega

namespace Place

theorem groups_sublist (s : Place) (ts : List Token) : (s.groups ts).Sublist (origins ts) := by
  induction ts generalizing s with
  | nil => exact List.Sublist.refl _
  | cons t rest ih =>
      rw [groups, origins_cons]
      refine List.Sublist.append ?_ (ih _)
      split_ifs
      · exact List.Sublist.refl _
      · exact List.nil_sublist _

/-- A group is numbered where a place of the text captures, and nowhere else. -/
theorem mem_groups {s : Place} {ts : List Token} {k : Nat} :
    k ∈ s.groups ts ↔ ∃ before t rest, ts = before ++ t :: rest ∧ t.origin = some k ∧
      (s.scan before (t :: rest)).captures t rest := by
  induction ts generalizing s with
  | nil => simp [groups]
  | cons t rest ih =>
      rw [groups, List.mem_append, ih]
      constructor
      · rintro (hhere | ⟨before, u, more, hrest, horigin, hcaptures⟩)
        · split_ifs at hhere with hcaptures
          · exact ⟨[], t, rest, rfl, by simpa using hhere, hcaptures⟩
          · cases hhere
        · refine ⟨t :: before, u, more, by rw [hrest, List.cons_append], horigin, ?_⟩
          rwa [scan, ← hrest]
      · rintro ⟨before, u, more, hts, horigin, hcaptures⟩
        cases before with
        | nil =>
            obtain ⟨rfl, rfl⟩ := List.cons.inj hts
            left
            rw [scan] at hcaptures
            rw [if_pos hcaptures, horigin]
            exact List.mem_singleton_self k
        | cons v before =>
            obtain ⟨rfl, hrest⟩ := List.cons.inj hts
            right
            refine ⟨before, u, more, hrest, horigin, ?_⟩
            rw [scan] at hcaptures
            rwa [hrest]

end Place

theorem mem_groups_iff {source : Utf16} {k : Nat} : k ∈ groups source ↔ OpensAt source k :=
  Place.mem_groups

/-- The groups stand in the order of the source, and no place has two. -/
theorem pairwise_groups (source : Utf16) : (groups source).Pairwise (· < ·) :=
  ((pairwise_origins 0 _).sublist (origins_removeQEQuoting _ _)).sublist
    (Place.groups_sublist _ _)

end JavaRegex

end Otoroshi
