/-
# The literal head of a pattern

An extractor asks its pattern only for the inputs that start with the literal head. That loses no
match when every input the pattern matches starts with it, and `unapplySeq_eq_iff` says so.

The head is read off the text of the pattern: the characters up to the first one with a meaning of
its own, and one less where that one may be a quantifier. One less is one code unit. A quantifier
takes a code point, which may have two, and it takes the last literal character also through an
empty quote in between. In both cases the head keeps something that the quantifier makes optional,
and the extractor is right only where the rest of the pattern asks for it again.
-/

import Otoroshi.Utils.KaleidoscopeShim

namespace Otoroshi

namespace KaleidoscopeShim

open JavaRegex

/-- The literal characters that a part starts with. -/
def literalRun (firstPart : Utf16) : Utf16 := firstPart.takeWhile (· ∉ metacharacters)

/-- What the source has behind them. -/
def behindRun (firstPart source : Utf16) : Utf16 := source.drop (literalRun firstPart).length

/-- What the engine reads behind them, once the quotes are resolved. -/
def tokensBehind (firstPart source : Utf16) : List Token :=
  removeQEQuoting .outside
    (tokensFrom (literalRun firstPart).length (decode (behindRun firstPart source)))

/-- A quantifier stands next, and it may take nothing. -/
def optional (ts : List Token) : Bool := (closure ts).any fun q => q.1.least == 0

/-- The literal characters without the code point that a quantifier behind them takes. -/
def required (firstPart : Utf16) : Utf16 :=
  (decode (literalRun firstPart)).dropLast.flatMap CodePoint.units

/-- The literal characters, without the last code unit where no escape or quote follows. -/
def kept (firstPart source : Utf16) : Utf16 :=
  if (behindRun firstPart source).head? = some (codeUnit '\\') then literalRun firstPart
  else (literalRun firstPart).dropLast

/-- Nothing of the head is optional: the source has an alternation, or no quantifier that may
take nothing stands behind the literal characters, or it takes none of those the head keeps, or
the pattern asks for these also with the optional one left out. -/
def AsksForHead (regex : Pattern) (firstPart source : Utf16) : Prop :=
  codeUnit '|' ∈ source ∨ optional (tokensBehind firstPart source) = false ∨
    kept firstPart source <+: required firstPart ∨
    ∀ input, (regex.without ((decode (literalRun firstPart)).length - 1)).unapplySeq input ≠ none →
      kept firstPart source <+: input

/-- The extractor is its pattern, and the groups of a pattern without other groups are those of
its holes, one for each and in their order. -/
def Faithful (extractor : RegexExtractor) (parts : List Utf16) : Prop :=
  (∀ input, extractor.unapplySeq input = extractor.regex.unapplySeq input) ∧
    ((∀ k ∈ extractor.regex.groups, k ∈ holes parts) → extractor.regex.groups = holes parts)

/-- The head loses no match exactly when every match starts with it. -/
theorem unapplySeq_eq_iff (extractor : RegexExtractor) :
    (∀ input, extractor.unapplySeq input = extractor.regex.unapplySeq input) ↔
      ∀ input, extractor.regex.unapplySeq input ≠ none → extractor.head <+: input := by
  refine forall_congr' fun input => ?_
  unfold RegexExtractor.unapplySeq
  split_ifs with hhead
  · simp [List.isPrefixOf_iff_prefix.mp hhead]
  · rw [List.isPrefixOf_iff_prefix] at hhead
    simp [hhead, eq_comm]

/-! ## The text around the literal characters -/

variable {firstPart more source : Utf16}

theorem notMem_metacharacters {u : UInt16} (h : u ∈ literalRun firstPart) :
    u ∉ metacharacters := by
  simpa using List.mem_takeWhile_imp h

theorem literalRun_append (firstPart : Utf16) :
    literalRun firstPart ++ firstPart.dropWhile (· ∉ metacharacters) = firstPart :=
  List.takeWhile_append_dropWhile

theorem behindRun_append (firstPart more : Utf16) :
    behindRun firstPart (firstPart ++ more) =
      firstPart.dropWhile (· ∉ metacharacters) ++ more := by
  have hfirst := literalRun_append firstPart
  rw [behindRun]
  generalize literalRun firstPart = run at hfirst ⊢
  generalize firstPart.dropWhile (· ∉ metacharacters) = tail at hfirst ⊢
  subst hfirst
  rw [List.append_assoc, List.drop_left]

theorem mem_metacharacters_of_head? {u : UInt16}
    (h : (firstPart.dropWhile (· ∉ metacharacters)).head? = some u) : u ∈ metacharacters := by
  have hstop := List.head?_dropWhile_not (fun u => decide (u ∉ metacharacters)) firstPart
  rw [h] at hstop
  simpa using hstop

/-- The head is the literal characters, without the last one where the first part goes on with a
character that may make it optional. -/
theorem literalHead_eq (hbar : codeUnit '|' ∉ source) :
    literalHead firstPart source =
      if (firstPart.dropWhile (· ∉ metacharacters)).head?.any (· ∈ steppingBack)
      then (literalRun firstPart).dropLast else literalRun firstPart := by
  have hnone : (literalRun firstPart).findIdx? (· ∈ metacharacters) = none :=
    List.findIdx?_eq_none_iff.mpr fun u hu => decide_eq_false (notMem_metacharacters hu)
  have hstop : ∀ c ∈ (firstPart.dropWhile (· ∉ metacharacters)).head?, c ∈ metacharacters :=
    fun c hc => mem_metacharacters_of_head? hc
  have hfirst := literalRun_append firstPart
  rw [literalHead, if_neg hbar]
  generalize literalRun firstPart = run at hnone hfirst ⊢
  generalize firstPart.dropWhile (· ∉ metacharacters) = tail at hstop hfirst ⊢
  subst hfirst
  cases tail with
  | nil => simp [hnone]
  | cons c rest =>
      have hfound : (run ++ c :: rest).findIdx? (· ∈ metacharacters) = some run.length := by
        simp [List.findIdx?_append, hnone, List.findIdx?_cons, hstop c rfl]
      have hlast : (run ++ c :: rest).take (run.length - 1) = run.dropLast := by
        rw [List.take_append_of_le_length (Nat.sub_le _ _), List.dropLast_eq_take]
      simp [hfound, hlast]

/-- What stands around the literal characters: the source has them and then, if anything, a
character with a meaning of its own, which a quantifier mark is only in the first part. -/
structure Surrounds (firstPart source : Utf16) : Prop where
  append : literalRun firstPart ++ behindRun firstPart source = source
  head_mem : ∀ u ∈ (behindRun firstPart source).head?, u ∈ metacharacters
  literalHead : codeUnit '|' ∉ source → literalHead firstPart source =
    if (behindRun firstPart source).head?.any (· ∈ steppingBack)
    then (literalRun firstPart).dropLast else literalRun firstPart

theorem surrounds_of_buildSource {parts : List Utf16} (h : buildSource parts = some source) :
    Surrounds (parts.headD []) source := by
  cases parts with
  | nil => cases h
  | cons firstPart parts =>
      obtain ⟨more, rfl, hmore, -⟩ := exists_of_buildSource h
      rw [List.headD_cons]
      have hgroup : codeUnit '(' ∈ metacharacters ∧ codeUnit '(' ∉ steppingBack := by decide
      refine ⟨?_, ?_, fun hbar => ?_⟩
      · rw [behindRun_append, ← List.append_assoc, literalRun_append]
      · rw [behindRun_append]
        cases htail : firstPart.dropWhile (· ∉ metacharacters) with
        | nil => exact fun u hu => hmore u hu ▸ hgroup.1
        | cons c rest =>
            intro u hu
            have hhead : (firstPart.dropWhile (· ∉ metacharacters)).head? = some u := by
              rwa [htail]
            exact mem_metacharacters_of_head? hhead
      · rw [literalHead_eq hbar, behindRun_append]
        cases htail : firstPart.dropWhile (· ∉ metacharacters) with
        | cons c rest => rfl
        | nil =>
            cases more with
            | nil => rfl
            | cons u more =>
                obtain rfl := hmore u rfl
                simp [hgroup.2]

theorem tokens_eq (h : Surrounds firstPart source) :
    tokens source =
      tokensFrom 0 (decode (literalRun firstPart)) ++ tokensBehind firstPart source := by
  have hlow : ∀ u ∈ metacharacters, isLowSurrogate u = false := forall_mem_of_all (by decide)
  have hslash : codeUnit '\\' ∉ literalRun firstPart := fun hmem =>
    notMem_metacharacters hmem (by decide)
  conv_lhs => rw [← h.append]
  rw [tokens, CodePoint.decode_append fun u hu => hlow u (h.head_mem u hu), tokensFrom_append,
    removeQEQuoting_append (isChar_of_notMem hslash 0), CodePoint.flatMap_units_decode,
    Nat.zero_add]
  rfl

theorem isLiteral_of_mem {start : Nat} {t : Token}
    (h : t ∈ tokensFrom start (decode (literalRun firstPart))) : t.IsLiteral := by
  have hmeta : ∀ c ∈ "\\.[]()\x7b\x7d*+?^$|".toList, codeUnit c ∈ metacharacters :=
    forall_mem_of_all (by decide)
  intro c hc
  exact isChar_of_notMem (fun hmem => notMem_metacharacters hmem (hmeta c hc)) start t h

theorem isChar_of_optional {t : Token} {ts : List Token} (h : optional (t :: ts) = true) :
    t.isChar '?' ∨ t.isChar '*' ∨ t.isChar '\x7b' := by
  rw [optional, JavaRegex.closure] at h
  split_ifs at h with hquestion hstar hplus hbrace
  · exact .inl hquestion
  · exact .inr (.inl hstar)
  · cases h
  · exact .inr (.inr hbrace)
  · cases h

/-- An optional quantifier right behind the literal characters is one of the marks for which the
head steps back. -/
theorem mem_steppingBack_of_optional (h : Surrounds firstPart source)
    (hoptional : optional (tokensBehind firstPart source) = true)
    (hslash : (behindRun firstPart source).head? ≠ some (codeUnit '\\')) :
    (behindRun firstPart source).head?.any (· ∈ steppingBack) = true := by
  have hhigh : ∀ u ∈ metacharacters, isHighSurrogate u = false := forall_mem_of_all (by decide)
  have hmarks : codeUnit '?' ∈ steppingBack ∧ codeUnit '*' ∈ steppingBack ∧
      codeUnit '\x7b' ∈ steppingBack := by decide
  have hhead := h.head_mem
  rw [tokensBehind] at hoptional
  cases hbehind : behindRun firstPart source with
  | nil =>
      rw [hbehind] at hoptional
      cases hoptional
  | cons u rest =>
      rw [hbehind] at hhead hslash hoptional
      rw [CodePoint.decode_cons (hhigh u (hhead u rfl)), tokensFrom] at hoptional
      have hplain : Token.isChar ⟨some (literalRun firstPart).length, .single u⟩ '\\' = false := by
        by_contra his
        have hu := CodePoint.single.inj (Token.isChar_iff.mp (eq_true_of_ne_false his))
        exact hslash (congrArg some hu)
      rw [removeQEQuoting_cons hplain] at hoptional
      suffices hu : u ∈ steppingBack by simpa using hu
      rcases isChar_of_optional hoptional with hmark | hmark | hmark
      · exact CodePoint.single.inj (Token.isChar_iff.mp hmark) ▸ hmarks.1
      · exact CodePoint.single.inj (Token.isChar_iff.mp hmark) ▸ hmarks.2.1
      · exact CodePoint.single.inj (Token.isChar_iff.mp hmark) ▸ hmarks.2.2

theorem literalHead_begins_run (h : Surrounds firstPart source) (hbar : codeUnit '|' ∉ source) :
    literalHead firstPart source <+: literalRun firstPart := by
  rw [h.literalHead hbar]
  split_ifs
  · exact List.dropLast_prefix _
  · exact List.prefix_rfl

/-- What the head keeps in front of a quantifier that may take nothing. -/
theorem literalHead_eq_kept (h : Surrounds firstPart source) (hbar : codeUnit '|' ∉ source)
    (hoptional : optional (tokensBehind firstPart source) = true) :
    literalHead firstPart source = kept firstPart source := by
  have hnot : codeUnit '\\' ∉ steppingBack := by decide
  rw [h.literalHead hbar, kept]
  split_ifs with hback hslash hslash
  · rw [hslash] at hback
    exact absurd (by simpa using hback) hnot
  · rfl
  · rfl
  · exact absurd (mem_steppingBack_of_optional h hoptional hslash) hback

/-! ## The constructs of the literal characters -/

/-- Without a bar, the pattern is its literal characters, the last one with the quantifier behind
it, and the rest. -/
theorem exists_of_compile {P : Platform} {regex : Pattern} (h : Surrounds firstPart source)
    (hbar : codeUnit '|' ∉ source) (hrun : literalRun firstPart ≠ [])
    (hcompile : Pattern.compile P source = some regex) :
    ∃ points last q width constructs, decode (literalRun firstPart) = points ++ [last] ∧
      JavaRegex.closure (tokensBehind firstPart source) = some (q, width) ∧
      regex.alternatives =
        [points.map (literal · .once) ++ literal last q :: constructs] := by
  obtain ⟨alternatives, hread, rfl⟩ := Option.map_eq_some_iff.mp hcompile
  have hpoints := CodePoint.decode_ne_nil hrun
  obtain ⟨points, last, hdecode⟩ : ∃ points last, decode (literalRun firstPart) = points ++ [last] :=
    ⟨_, _, (List.dropLast_append_getLast hpoints).symm⟩
  have hliteral : ∀ t ∈ tokensFrom 0 (decode (literalRun firstPart)), t.IsLiteral :=
    fun t => isLiteral_of_mem
  have htokens := tokens_eq h
  rw [hdecode, tokensFrom_append] at hliteral htokens
  rw [List.append_assoc] at htokens
  have hnobar : ∀ t ∈ tokens source, t.isChar '|' = false :=
    isChar_of_mem_removeQEQuoting (forall_mem_of_all (by decide)) (isChar_of_notMem hbar 0)
  rw [htokens] at hread hnobar
  obtain ⟨q, width, constructs, hq, halternatives⟩ := exists_eq_literals
    (fun t ht => hliteral t (List.mem_append_left _ ht))
    (hliteral _ (List.mem_append_right _ List.mem_cons_self)) hnobar hread
  rw [map_point_tokensFrom] at halternatives
  exact ⟨points, last, q, width, constructs, hdecode, hq, halternatives⟩

theorem kept_prefix : kept firstPart source <+: literalRun firstPart := by
  unfold kept
  split_ifs
  · exact List.prefix_rfl
  · exact List.dropLast_prefix _

section Run

variable {points : List CodePoint} {last : CodePoint} {q : Closure} {width : Nat}
  {constructs : List Construct} {regex : Pattern}

/-- An input without the literal characters is matched with or without the optional one. -/
theorem without_ne_none_iff (hq : q.least = 0)
    (hregex : regex.alternatives =
      [points.map (literal · .once) ++ literal last q :: constructs]) {input : Utf16}
    (hinput : ¬ (points ++ [last]).flatMap CodePoint.units <+: input) :
    (regex.without points.length).unapplySeq input ≠ none ↔ regex.unapplySeq input ≠ none := by
  have hwithout : (regex.without points.length).alternatives =
      [points.map (literal · .once) ++ constructs] := by
    simp [Pattern.without, hregex, List.eraseIdx_append_of_length_le]
  have hstart : ¬ points.flatMap CodePoint.units ++ last.units <+: (State.start input).rest := by
    simpa [State.rest_start] using hinput
  rw [Pattern.unapplySeq_ne_none_iff hwithout, Pattern.unapplySeq_ne_none_iff hregex,
    runAll_of_optional hq hstart]

/-- A pattern whose literal characters none is optional asks for all of them. -/
theorem prefix_of_least_pos (hq : 0 < q.least)
    (hregex : regex.alternatives =
      [points.map (literal · .once) ++ literal last q :: constructs]) {input : Utf16}
    (hmatch : regex.unapplySeq input ≠ none) :
    (points ++ [last]).flatMap CodePoint.units <+: input := by
  have hlast : Construct.Asks (JavaRegex.runAll (literal last q :: constructs)) last.units :=
    asks_runAll_cons (asks_literal hq)
  simpa using Pattern.prefix_of_unapplySeq hregex (asks_literals points hlast) hmatch

/-- It asks for those in front of the quantifier in any case. -/
theorem prefix_of_unapplySeq
    (hregex : regex.alternatives =
      [points.map (literal · .once) ++ literal last q :: constructs]) {input : Utf16}
    (hmatch : regex.unapplySeq input ≠ none) : points.flatMap CodePoint.units <+: input := by
  have hnothing : Construct.Asks (JavaRegex.runAll (literal last q :: constructs)) [] :=
    fun _ _ => List.nil_prefix
  simpa using Pattern.prefix_of_unapplySeq hregex (asks_literals points hnothing) hmatch

end Run

/-- Every match starts with the head exactly when nothing of the head is optional. -/
theorem prefix_iff_asksForHead {P : Platform} {regex : Pattern} (h : Surrounds firstPart source)
    (hcompile : Pattern.compile P source = some regex) :
    (∀ input, regex.unapplySeq input ≠ none → literalHead firstPart source <+: input) ↔
      AsksForHead regex firstPart source := by
  by_cases hbar : codeUnit '|' ∈ source
  · rw [literalHead, if_pos hbar]
    exact iff_of_true (fun _ _ => List.nil_prefix) (.inl hbar)
  by_cases hrun : literalRun firstPart = []
  · have hhead := literalHead_begins_run h hbar
    have hkept : kept firstPart source <+: literalRun firstPart := kept_prefix
    rw [hrun, List.prefix_nil] at hhead hkept
    rw [hhead]
    refine iff_of_true (fun _ _ => List.nil_prefix) (.inr (.inr (.inl ?_)))
    rw [hkept]
    exact List.nil_prefix
  obtain ⟨points, last, q, width, constructs, hdecode, hq, hregex⟩ :=
    exists_of_compile h hbar hrun hcompile
  have hunits : (points ++ [last]).flatMap CodePoint.units = literalRun firstPart := by
    rw [← hdecode, CodePoint.flatMap_units_decode]
  have hindex : (decode (literalRun firstPart)).length - 1 = points.length := by
    simp [hdecode]
  cases hoptional : optional (tokensBehind firstPart source) with
  | false =>
      refine iff_of_true (fun input hmatch => ?_) (.inr (.inl hoptional))
      have hleast : 0 < q.least := by
        rw [optional, hq] at hoptional
        exact Nat.pos_of_ne_zero (by simpa using hoptional)
      exact (literalHead_begins_run h hbar).trans
        (hunits ▸ prefix_of_least_pos hleast hregex hmatch)
  | true =>
      have hleast : q.least = 0 := by
        rw [optional, hq] at hoptional
        simpa using hoptional
      rw [literalHead_eq_kept h hbar hoptional]
      constructor
      · intro hall
        refine .inr (.inr (.inr fun input hmatch => ?_))
        by_cases hstart : literalRun firstPart <+: input
        · exact kept_prefix.trans hstart
        · rw [hindex, without_ne_none_iff hleast hregex (hunits ▸ hstart)] at hmatch
          exact hall input hmatch
      · rintro (hmem | hfalse | hrequired | hrest) input hmatch
        · exact absurd hmem hbar
        · rw [hoptional] at hfalse
          cases hfalse
        · have hpoints : required firstPart = points.flatMap CodePoint.units := by
            rw [required, hdecode, List.dropLast_concat]
          exact hrequired.trans (hpoints ▸ prefix_of_unapplySeq hregex hmatch)
        · by_cases hstart : literalRun firstPart <+: input
          · exact kept_prefix.trans hstart
          · apply hrest
            rw [hindex, without_ne_none_iff hleast hregex (hunits ▸ hstart)]
            exact hmatch

theorem exists_of_extractorOf {P : Platform} {parts : List Utf16} {extractor : RegexExtractor}
    (hsource : buildSource parts = some source) (h : extractorOf P parts = some extractor) :
    ∃ regex, Pattern.compile P source = some regex ∧
      extractor = ⟨regex, literalHead (parts.headD []) source⟩ := by
  rw [extractorOf, hsource, Option.bind_some] at h
  obtain ⟨regex, hregex, rfl⟩ := Option.map_eq_some_iff.mp h
  exact ⟨regex, hregex, rfl⟩

/-- An extractor is its pattern with a group for each hole exactly when nothing of its head is
optional and, unless the pattern has other groups, a group opens at every hole. -/
theorem faithful_iff (P : Platform) {parts : List Utf16} {extractor : RegexExtractor}
    (hsource : buildSource parts = some source) (h : extractorOf P parts = some extractor) :
    Faithful extractor parts ↔
      AsksForHead extractor.regex (parts.headD []) source ∧
        ((∀ k ∈ groups source, k ∈ holes parts) → ∀ k ∈ holes parts, OpensAt source k) := by
  obtain ⟨regex, hcompile, rfl⟩ := exists_of_extractorOf hsource h
  have hgroups : regex.groups = groups source := by
    obtain ⟨alternatives, -, rfl⟩ := Option.map_eq_some_iff.mp hcompile
    rfl
  refine and_congr ?_ ?_
  · rw [unapplySeq_eq_iff]
    exact prefix_iff_asksForHead (surrounds_of_buildSource hsource) hcompile
  · rw [hgroups]
    exact forall_congr' groups_eq_holes_iff

theorem faithful_iff_example :
    ∃ extractor, extractorOf .anyGroups [utf16 "ab".toList, utf16 "@(.*)cd".toList] =
        some extractor ∧
      Faithful extractor [utf16 "ab".toList, utf16 "@(.*)cd".toList] := by
  have hsource : buildSource [utf16 "ab".toList, utf16 "@(.*)cd".toList] =
      some (utf16 "ab(.*)cd".toList) := by decide +kernel
  have hcompiles : (extractorOf .anyGroups [utf16 "ab".toList, utf16 "@(.*)cd".toList]).isSome := by
    decide +kernel
  obtain ⟨extractor, hextractor⟩ := Option.isSome_iff_exists.mp hcompiles
  have hgroups : groups (utf16 "ab(.*)cd".toList) =
      holes [utf16 "ab".toList, utf16 "@(.*)cd".toList] := by decide +kernel
  refine ⟨extractor, hextractor, ?_⟩
  refine (faithful_iff .anyGroups hsource hextractor).mpr ⟨.inr (.inl (by decide +kernel)), ?_⟩
  intro hother
  exact (groups_eq_holes_iff hother).mp hgroups

/-- The head of a pattern keeps half of a character that a quantifier makes optional, and a hole
may be given a group that captures nothing. -/
theorem exists_not_faithful :
    (¬ ∀ (P : Platform) (parts : List Utf16) (extractor : RegexExtractor),
      extractorOf P parts = some extractor → Faithful extractor parts) ∧
    ¬ ∀ (parts : List Utf16) (source : Utf16), buildSource parts = some source →
      (∀ k ∈ groups source, k ∈ holes parts) → groups source = holes parts := by
  constructor
  · intro hall
    have hruns : (extractorOf .anyGroups [utf16 "😀?abc".toList]).map (fun extractor =>
        (extractor.unapplySeq (utf16 "abc".toList),
          extractor.regex.unapplySeq (utf16 "abc".toList))) = some (none, some []) := by
      decide +kernel
    obtain ⟨extractor, hextractor, hanswers⟩ := Option.map_eq_some_iff.mp hruns
    obtain ⟨hrefuses, hmatches⟩ := Prod.mk.inj hanswers
    have hsame := (hall _ _ _ hextractor).1 (utf16 "abc".toList)
    rw [hrefuses, hmatches] at hsame
    cases hsame
  · intro hall
    have hsource : buildSource [[], utf16 "@(?:a)".toList] = some (utf16 "(?:a)".toList) := by
      decide +kernel
    have hgroups : groups (utf16 "(?:a)".toList) = [] := by decide +kernel
    have hsame := hall _ _ hsource (by rw [hgroups]; exact fun k hk => absurd hk List.not_mem_nil)
    rw [hgroups] at hsame
    cases hsame

end KaleidoscopeShim

end Otoroshi
