/-
# What is written is read

For each part of the fields of a signature, the parser reads what the serializer writes,
whatever follows that can follow it. The escapes of a string are undone, a number is read
up to the first character that is no digit, bytes up to the colon, and a token up to one
of the characters that end it.
-/

import Otoroshi.Signatures.StructuredFields

namespace Otoroshi

open Stateful TextParser

/-- The platform knows the decimal digits, has no others among the first characters, and
does not make quotes or backslashes by lower casing. -/
structure CharPlatform.Standard (P : CharPlatform) : Prop where
  readsDigits : ReadsDigits P.digit
  digit_of_ascii : ∀ c : Char, c.toNat < 128 → P.isDigit c = true → c.isDigit = true
  toLowerCase_idem : ∀ s, P.toLowerCase (P.toLowerCase s) = P.toLowerCase s
  mem_toLowerCase : ∀ s c, c = '"' ∨ c = '\\' → c ∈ P.toLowerCase s → c ∈ s

namespace HttpSigStructuredFields

variable {P : CharPlatform} {input : Str}

/-- A key that the parser can read. -/
def IsKey (key : Str) : Prop := key ≠ [] ∧ ∀ c ∈ key, isKeyChar c = true

/-- Any text can follow. -/
abbrev Anything (_ : Str) : Prop := True

/-- A value ends here. -/
def EndsItem (rest : Str) : Prop := ∀ c ∈ rest.head?, endsToken c = true

/-- The parameters end here. -/
def EndsParams (rest : Str) : Prop := ∀ c ∈ rest.head?, c = ',' ∨ c = ')' ∨ c = ' '

theorem EndsParams.endsItem {rest : Str} (h : EndsParams rest) : EndsItem rest := by
  intro c hc
  obtain rfl | rfl | rfl := h c hc <;> decide

theorem reads_skipSpaces : TextParser.Reads (NotAhead isSpace) skipSpaces [] () := by
  intro rest hrest
  have hstop : rest.dropWhile isSpace = rest := by
    cases rest with
    | nil => rfl
    | cons c rest => simp [hrest c rfl]
  exact congrArg (Prod.mk _) hstop

theorem notAhead_cons {p : Char → Bool} {c : Char} (hc : p c = false) (rest : Str) :
    NotAhead p (c :: rest) := by
  intro d hd
  cases hd
  exact hc

theorem skipSpaces_cons {c : Char} (hc : isSpace c = false) (rest : Str) :
    skipSpaces (c :: rest) = (.ok (), c :: rest) :=
  reads_skipSpaces (c :: rest) (notAhead_cons hc rest)

theorem reads_expect {c : Char} (hc : isSpace c = false) :
    TextParser.Reads Anything (expect input c) [c] () := by
  intro rest _
  rw [expect, List.singleton_append, bind_of_ok (skipSpaces_cons hc rest), get_bind_apply,
    if_pos List.head?_cons]
  rfl

theorem notAhead_space_of_isKey {key : Str} (hkey : IsKey key) (rest : Str) :
    NotAhead isSpace (key ++ rest) := by
  cases key with
  | nil => exact absurd rfl hkey.1
  | cons d key =>
      apply notAhead_cons
      have hd := hkey.2 d List.mem_cons_self
      cases hspace : isSpace d with
      | false => rfl
      | true =>
          have hcases : d = ' ' ∨ d = '\t' := by simpa [isSpace] using hspace
          obtain rfl | rfl := hcases <;> exact absurd hd (by decide)

theorem reads_readKey {key : Str} (hkey : IsKey key) :
    TextParser.Reads (NotAhead isKeyChar) (readKey input) key key := by
  intro rest hrest
  have hspaces : skipSpaces (key ++ rest) = (.ok (), key ++ rest) :=
    reads_skipSpaces (key ++ rest) (notAhead_space_of_isKey hkey rest)
  have hempty : key.isEmpty = false := by simpa using hkey.1
  rw [readKey, bind_of_ok hspaces, bind_of_ok (reads_takeWhile hkey.2 rest hrest), get_bind_apply,
    hempty]
  rfl

theorem escape_backslash (v : Str) : escape ('\\' :: v) = '\\' :: '\\' :: escape v := by
  simp [escape, replaceChar]

theorem escape_quote (v : Str) : escape ('"' :: v) = '\\' :: '"' :: escape v := by
  simp [escape, replaceChar]

theorem escape_cons {c : Char} (hbackslash : c ≠ '\\') (hquote : c ≠ '"') (v : Str) :
    escape (c :: v) = c :: escape v := by
  simp [escape, replaceChar, hbackslash, hquote]

theorem unescape_cons {c : Char} (hbackslash : c ≠ '\\') (hquote : c ≠ '"') (rest : Str) :
    unescape (c :: rest) = (c :: (unescape rest).1, (unescape rest).2) := by
  rw [unescape]
  · exact hquote
  · intro n rest' hc
    exact absurd hc hbackslash

/-- Reading a string undoes the escapes up to the quote that closes it. -/
theorem unescape_escape (v rest : Str) : unescape (escape v ++ '"' :: rest) = (v, '"' :: rest) := by
  induction v with
  | nil => rfl
  | cons c v ih =>
      by_cases hbackslash : c = '\\'
      · subst hbackslash
        rw [escape_backslash, List.cons_append, List.cons_append, unescape, ih]
      by_cases hquote : c = '"'
      · subst hquote
        rw [escape_quote, List.cons_append, List.cons_append, unescape, ih]
      · rw [escape_cons hbackslash hquote, List.cons_append, unescape_cons hbackslash hquote, ih]

theorem escape_of_free {v : Str} (h : ∀ c ∈ v, c ≠ '"' ∧ c ≠ '\\') : escape v = v := by
  induction v with
  | nil => rfl
  | cons c v ih =>
      rw [List.forall_mem_cons] at h
      rw [escape_cons h.1.2 h.1.1, ih h.2]

theorem reads_readString (v : Str) :
    TextParser.Reads Anything (readString input) ('"' :: (escape v ++ ['"'])) v := by
  intro rest _
  have hescaped : readEscaped (escape v ++ '"' :: rest) = (.ok v, '"' :: rest) := by
    rw [readEscaped, unescape_escape]
  have hopen : expect input '"' ('"' :: (escape v ++ '"' :: rest)) =
      (.ok (), escape v ++ '"' :: rest) := reads_expect (by decide) _ trivial
  have hclose : expect input '"' ('"' :: rest) = (.ok (), rest) :=
    reads_expect (by decide) _ trivial
  rw [List.cons_append, List.append_assoc, List.singleton_append, readString,
    bind_of_ok (skipSpaces_cons (by decide) _), bind_of_ok hopen, bind_of_ok hescaped,
    bind_of_ok hclose]
  rfl

theorem reads_quoted {v : Str} (h : ∀ c ∈ v, c ≠ '"' ∧ c ≠ '\\') :
    TextParser.Reads Anything (readString input) ('"' :: (v ++ ['"'])) v := by
  have hread : TextParser.Reads Anything (readString input) ('"' :: (escape v ++ ['"'])) v :=
    reads_readString v
  rwa [escape_of_free h] at hread

theorem reads_readByteSequence (v : List UInt8) :
    TextParser.Reads Anything (readByteSequence input) (':' :: (Base64.encode v ++ [':'])) v := by
  intro rest _
  have hfree : ∀ c ∈ Base64.encode v, (c != ':') = true := by
    intro c hc
    have hmem := Base64.mem_alphabet_of_mem_encode hc
    have hcolon : ':' ∉ '=' :: Base64.alphabet := by decide +kernel
    rw [bne_iff_ne]
    intro heq
    exact hcolon (heq ▸ hmem)
  have htake : takeWhile (fun c => c != ':') (Base64.encode v ++ ':' :: rest) =
      ((.ok (Base64.encode v), ':' :: rest) : Except ParseError Str × Str) :=
    reads_takeWhile hfree _ (notAhead_cons (by decide) rest)
  have hopen : expect input ':' (':' :: (Base64.encode v ++ ':' :: rest)) =
      (.ok (), Base64.encode v ++ ':' :: rest) := reads_expect (by decide) _ trivial
  have hclose : expect input ':' (':' :: rest) = (.ok (), rest) :=
    reads_expect (by decide) _ trivial
  rw [List.cons_append, List.append_assoc, List.singleton_append, readByteSequence,
    bind_of_ok (skipSpaces_cons (by decide) _), bind_of_ok hopen, bind_of_ok htake,
    bind_of_ok hclose, Base64.decode_encode]
  rfl

theorem readSign_of_ne {text : Str} (h : text.head? ≠ some '-') :
    readSign text = (.ok [], text) := by
  rw [readSign, get_bind_apply, if_neg h]
  rfl

section Numbers

variable (hP : P.Standard)

include hP

theorem isDigit_of_decimal {c : Char} (h : c.isDigit = true) : P.isDigit c = true := by
  have hall : ∀ i : Fin 10, Char.ofNat (48 + i) = Nat.digitChar i := by decide
  rw [Char.isDigit, Bool.and_eq_true, decide_eq_true_eq, decide_eq_true_eq] at h
  have hle : 48 ≤ c.toNat := h.1
  have hle' : c.toNat ≤ 57 := h.2
  have hc : c = Nat.digitChar (c.toNat - 48) := by
    rw [← hall ⟨c.toNat - 48, by omega⟩, show 48 + (c.toNat - 48) = c.toNat by omega,
      Char.ofNat_toNat]
  rw [CharPlatform.isDigit, hc, hP.readsDigits _ (by omega)]
  rfl

theorem not_isDigit {c : Char} (hascii : c.toNat < 128) (h : c.isDigit = false) :
    P.isDigit c = false := by
  cases hc : P.isDigit c with
  | false => rfl
  | true =>
      have hdecimal := hP.digit_of_ascii c hascii hc
      rw [h] at hdecimal
      cases hdecimal

theorem toLong_longText (n : Long) : toLong P (longText n.val) = pure (.int n) := by
  have hparse := parseLong_longText hP.readsDigits n.property
  rw [toLong]
  split
  · next m h =>
      rw [hparse] at h
      cases h
      rfl
  · next h =>
      rw [hparse] at h
      cases h

theorem reads_digits {m : Nat} {sign : Str} {n : Long}
    (hn : longText n.val = sign ++ Nat.toDigits 10 m) :
    TextParser.Reads (NotAhead P.isDigit)
      (do
        let digits ← takeWhile P.isDigit
        toLong P (sign ++ digits))
      (Nat.toDigits 10 m) (.int n) := by
  have hdigits : ∀ c ∈ Nat.toDigits 10 m, P.isDigit c = true := by
    intro c hc
    exact isDigit_of_decimal hP (Nat.isDigit_of_mem_toDigits (by decide) (by decide) hc)
  intro rest hrest
  rw [bind_of_ok (reads_takeWhile hdigits rest hrest), ← hn, toLong_longText hP]
  rfl

/-- A number is read with its sign, up to what is no digit. -/
theorem reads_readNumber (n : Long) :
    TextParser.Reads (NotAhead P.isDigit) (readNumber P) (longText n.val) (.int n) := by
  intro rest hrest
  rcases hval : n.val with m | m
  · have htext : longText n.val = [] ++ Nat.toDigits 10 m := by
      rw [hval]
      exact longText_ofNat m
    have hsign : readSign (Nat.toDigits 10 m ++ rest) = (.ok [], Nat.toDigits 10 m ++ rest) := by
      apply readSign_of_ne
      intro hhead
      obtain ⟨c, digits, hdigits⟩ := List.exists_cons_of_ne_nil
        (Nat.toDigits_ne_nil : Nat.toDigits 10 m ≠ [])
      have hc : c.isDigit = true := Nat.isDigit_of_mem_toDigits (by decide) (by decide)
        (hdigits ▸ List.mem_cons_self)
      rw [hdigits] at hhead
      cases hhead
      exact absurd hc (by decide)
    rw [← hval, htext, readNumber, List.nil_append, bind_of_ok hsign]
    exact reads_digits hP htext rest hrest
  · have htext : longText n.val = ['-'] ++ Nat.toDigits 10 (m + 1) := by
      rw [hval]
      exact longText_negSucc m
    have hsign : readSign ('-' :: (Nat.toDigits 10 (m + 1) ++ rest)) =
        (.ok ['-'], Nat.toDigits 10 (m + 1) ++ rest) := rfl
    rw [← hval, htext, readNumber, List.append_assoc, List.singleton_append, bind_of_ok hsign]
    exact reads_digits hP htext rest hrest

end Numbers

/-- Numbers begin with a sign or a decimal digit. -/
theorem exists_longText_eq (n : Int) :
    ∃ c text, longText n = c :: text ∧ (c = '-' ∨ c.isDigit = true) := by
  rcases n with m | m
  · obtain ⟨c, digits, hdigits⟩ := List.exists_cons_of_ne_nil
      (Nat.toDigits_ne_nil : Nat.toDigits 10 m ≠ [])
    have hc : c.isDigit = true := Nat.isDigit_of_mem_toDigits (by decide) (by decide)
      (hdigits ▸ List.mem_cons_self)
    exact ⟨c, digits, (longText_ofNat m).trans hdigits, Or.inr hc⟩
  · exact ⟨'-', _, longText_negSucc m, Or.inl rfl⟩

/-- The characters of a token. -/
def isTokenChar (c : Char) : Bool :=
  c.isAlphanum || "!#$%&'*+-.^_`|~:/".toList.contains c

/-- A well-formed token: letters and some signs, of which the first is a letter or a
star. -/
structure IsToken (token : Str) : Prop where
  head : ∃ c ∈ token.head?, c.isAlpha = true ∨ c = '*'
  chars : ∀ c ∈ token, isTokenChar c = true

theorem endsToken_iff {c : Char} :
    endsToken c = true ↔ c = ',' ∨ c = ';' ∨ c = ')' ∨ c = ' ' := by
  simp [endsToken]

theorem ascii_of_isAlpha {c : Char} (h : c.isAlpha = true) :
    c.toNat < 128 ∧ c.isDigit = false := by
  have hletter : 65 ≤ c.toNat ∧ c.toNat ≤ 90 ∨ 97 ≤ c.toNat ∧ c.toNat ≤ 122 := by
    change (decide (65 ≤ c.val ∧ c.val ≤ 90) || (decide (97 ≤ c.val) && decide (c.val ≤ 122))) =
      true at h
    simpa [UInt32.le_iff_toNat_le] using h
  have hdigit : c.isDigit = decide (48 ≤ c.toNat ∧ c.toNat ≤ 57) := by
    simp [Char.isDigit, UInt32.le_iff_toNat_le]
  rw [hdigit, decide_eq_false_iff_not]
  omega

theorem endsToken_of_isTokenChar {c : Char} (h : isTokenChar c = true) : endsToken c = false := by
  cases hends : endsToken c with
  | false => rfl
  | true =>
      obtain rfl | rfl | rfl | rfl := endsToken_iff.mp hends <;> exact absurd h (by decide)

/-- What ends a value is no part of one. -/
theorem EndsItem.notAhead {p : Char → Bool} {rest : Str} (h : EndsItem rest)
    (hp : p ',' = false ∧ p ';' = false ∧ p ')' = false ∧ p ' ' = false) : NotAhead p rest := by
  intro c hc
  obtain rfl | rfl | rfl | rfl := endsToken_iff.mp (h c hc)
  · exact hp.1
  · exact hp.2.1
  · exact hp.2.2.1
  · exact hp.2.2.2

section Items

theorem readBareItem_cons (c : Char) (text : Str) : readBareItem P input (c :: text) =
    (if c = '"' then do
        let value ← readString input
        pure (.string value)
      else if c = ':' then do
        let value ← readByteSequence input
        pure (.bytes value)
      else if c = '?' then readBoolean
      else if c = '-' ∨ P.isDigit c then readNumber P
      else do
        let value ← takeWhile fun c => !endsToken c
        pure (.token value) : TextParser ParseError Param) (c :: text) := rfl

theorem reads_string (v : Str) :
    TextParser.Reads Anything (readBareItem P input) ('"' :: (escape v ++ ['"'])) (.string v) := by
  intro rest hrest
  rw [List.cons_append, readBareItem_cons, if_pos rfl, ← List.cons_append,
    bind_of_ok (reads_readString v rest hrest)]
  rfl

theorem reads_bytes (v : List UInt8) :
    TextParser.Reads Anything (readBareItem P input) (':' :: (Base64.encode v ++ [':']))
      (.bytes v) := by
  intro rest hrest
  rw [List.cons_append, readBareItem_cons, if_neg (by decide), if_pos rfl, ← List.cons_append,
    bind_of_ok (reads_readByteSequence v rest hrest)]
  rfl

theorem reads_false : TextParser.Reads Anything (readBareItem P input) "?0".toList (.bool false) :=
  fun _ _ => rfl

variable (hP : P.Standard)

include hP

theorem reads_int (n : Long) :
    TextParser.Reads EndsItem (readBareItem P input) (longText n.val) (.int n) := by
  intro rest hrest
  obtain ⟨c, text, htext, hc⟩ := exists_longText_eq n.val
  have hnumber := reads_readNumber hP n rest (hrest.notAhead
    ⟨not_isDigit hP (by decide) rfl, not_isDigit hP (by decide) rfl,
      not_isDigit hP (by decide) rfl, not_isDigit hP (by decide) rfl⟩)
  have hstart : c = '-' ∨ P.isDigit c = true := hc.imp id (isDigit_of_decimal hP)
  have hne : c ≠ '"' ∧ c ≠ ':' ∧ c ≠ '?' := by
    refine ⟨?_, ?_, ?_⟩ <;> rintro rfl <;> exact absurd hc (by decide)
  rw [htext, List.cons_append] at hnumber ⊢
  rw [readBareItem_cons, if_neg hne.1, if_neg hne.2.1, if_neg hne.2.2, if_pos hstart, hnumber]

theorem reads_token {v : Str} (hv : IsToken v) :
    TextParser.Reads EndsItem (readBareItem P input) v (.token v) := by
  intro rest hrest
  obtain ⟨c, hhead, hc⟩ := hv.head
  have htake : takeWhile (fun c => !endsToken c) (v ++ rest) =
      ((.ok v, rest) : Except ParseError Str × Str) := by
    apply reads_takeWhile
    · intro d hd
      rw [endsToken_of_isTokenChar (hv.chars d hd)]
      rfl
    · exact hrest.notAhead (by decide)
  cases v with
  | nil => cases hhead
  | cons d v =>
      cases hhead
      have hne : c ≠ '"' ∧ c ≠ ':' ∧ c ≠ '?' ∧ c ≠ '-' := by
        refine ⟨?_, ?_, ?_, ?_⟩ <;> rintro rfl <;> exact absurd hc (by decide)
      have hdigit : P.isDigit c = false := by
        obtain halpha | rfl := hc
        · exact not_isDigit hP (ascii_of_isAlpha halpha).1 (ascii_of_isAlpha halpha).2
        · exact not_isDigit hP (by decide) rfl
      rw [List.cons_append] at htake ⊢
      rw [readBareItem_cons, if_neg hne.1, if_neg hne.2.1, if_neg hne.2.2.1,
        if_neg (by simp [hne.2.2.2, hdigit]), bind_of_ok htake]
      rfl

end Items

/-! ## Parameters -/

/-- The parameters that are written and read: with keys of the alphabet, and tokens that
are well formed. -/
structure IsParam (param : Str × Param) : Prop where
  key : IsKey param.1
  token : ∀ v, param.2 = .token v → IsToken v

section Params

theorem readParam_cons (text : Str) : readParam P input (';' :: text) =
    (do
      let k ← readKey input
      let rest ← Stateful.get
      if rest.head? = some '=' then
        advance
        let item ← readBareItem P input
        pure (k, item)
      else
        pure (k, .bool true) : TextParser ParseError (Str × Param)) text := rfl

theorem reads_param {k text : Str} {value : Param} {stops : Str → Prop} (hk : IsKey k)
    (hvalue : TextParser.Reads stops (readBareItem P input) text value) :
    TextParser.Reads stops (readParam P input) (';' :: (k ++ '=' :: text)) (k, value) := by
  intro rest hrest
  have hkey : readKey input (k ++ '=' :: (text ++ rest)) = (.ok k, '=' :: (text ++ rest)) :=
    reads_readKey hk _ (notAhead_cons (by decide) _)
  have hadvance : advance ('=' :: (text ++ rest)) = (.ok (), text ++ rest) := rfl
  rw [List.cons_append, List.append_assoc, List.cons_append, readParam_cons, bind_of_ok hkey,
    get_bind_apply, if_pos List.head?_cons, bind_of_ok hadvance, bind_of_ok (hvalue rest hrest)]
  rfl

theorem reads_flag {k : Str} (hk : IsKey k) :
    TextParser.Reads EndsItem (readParam P input) (';' :: k) (k, .bool true) := by
  intro rest hrest
  have hkey : readKey input (k ++ rest) = (.ok k, rest) :=
    reads_readKey hk rest (hrest.notAhead (by decide))
  have hhead : rest.head? ≠ some '=' := by
    intro hhead
    exact absurd (hrest '=' hhead) (by decide)
  rw [List.cons_append, readParam_cons, bind_of_ok hkey, get_bind_apply, if_neg hhead]
  rfl

theorem exists_serializeParam_eq (param : Str × Param) :
    ∃ text, serializeParam param = ';' :: text := by
  obtain ⟨k, value⟩ := param
  cases value <;> exact ⟨_, rfl⟩

theorem head_ne_of_endsParams {rest : Str} (h : EndsParams rest) :
    (rest.head? == some ';') = false := by
  rw [beq_eq_false_iff_ne]
  intro hhead
  exact absurd (h ';' hhead) (by decide)

variable (hP : P.Standard)

include hP

theorem reads_serializeParam {param : Str × Param} (hparam : IsParam param) :
    TextParser.Reads EndsItem (readParam P input) (serializeParam param) param := by
  obtain ⟨k, value⟩ := param
  have hk := hparam.key
  cases value with
  | string v => exact reads_param hk ((reads_string v).mono fun _ _ => trivial)
  | int v => exact reads_param hk (reads_int hP v)
  | bytes v => exact reads_param hk ((reads_bytes v).mono fun _ _ => trivial)
  | bool v =>
      cases v with
      | true => simpa [serializeParam] using reads_flag hk
      | false => exact reads_param hk (reads_false.mono fun _ _ => trivial)
  | token v => exact reads_param hk (reads_token hP (hparam.token v rfl))

theorem reads_serializeParams {params : List (Str × Param)}
    (hparams : ∀ param ∈ params, IsParam param) :
    TextParser.Reads EndsParams (readParams P input) (serializeParams params) params := by
  have hwritten : serializeParams params = List.intercalate [] (params.map serializeParam) := by
    rw [intercalate_nil_eq_flatten, serializeParams, List.flatMap]
  rw [hwritten]
  conv_rhs => rw [← List.map_id params]
  apply reads_whileDo
  · intro param _ rest
    obtain ⟨text, htext⟩ := exists_serializeParam_eq param
    rw [htext]
    rfl
  · intro rest hrest
    exact head_ne_of_endsParams hrest
  · intro param hparam other _ rest
    obtain ⟨text, htext⟩ := exists_serializeParam_eq other
    rw [List.nil_append, htext]
    apply reads_serializeParam hP (hparams param hparam)
    intro c hc
    cases hc
    decide
  · intro param hparam
    exact (reads_serializeParam hP (hparams param hparam)).mono fun _ h => h.endsItem

end Params

/-! ## Components and entries -/

/-- The components that are written and read. -/
structure IsComponent (cid : ComponentId) : Prop where
  name : ∀ c ∈ cid.rawName, c ≠ '"' ∧ c ≠ '\\'
  params : ∀ param ∈ cid.params, IsParam param

structure IsInput (value : SignatureInputValue) : Prop where
  components : ∀ cid ∈ value.components, IsComponent cid
  params : ∀ param ∈ value.params, IsParam param

/-- A component with the name that is written for it. -/
def ComponentId.lowered (P : CharPlatform) (cid : ComponentId) : ComponentId :=
  { cid with rawName := cid.name P }

def SignatureInputValue.lowered (P : CharPlatform) (value : SignatureInputValue) :
    SignatureInputValue :=
  { value with components := value.components.map (·.lowered P) }

/-- The list of components is closed here. -/
def ClosesList (rest : Str) : Prop := rest.head? = some ')'

theorem ClosesList.notAhead_space {rest : Str} (h : ClosesList rest) : NotAhead isSpace rest := by
  intro c hc
  rw [h] at hc
  cases hc
  decide

section Entries

variable (hP : P.Standard)

include hP

theorem reads_component {cid : ComponentId} (hcid : IsComponent cid) :
    TextParser.Reads EndsParams (readComponentId P input) (cid.serialize P) (cid.lowered P) := by
  have hfree : ∀ c ∈ cid.name P, c ≠ '"' ∧ c ≠ '\\' := by
    intro c hc
    constructor
    · intro heq
      exact (hcid.name c (hP.mem_toLowerCase _ c (Or.inl heq) hc)).1 heq
    · intro heq
      exact (hcid.name c (hP.mem_toLowerCase _ c (Or.inr heq) hc)).2 heq
  intro rest hrest
  have hstring : readString input
      ('"' :: (cid.name P ++ '"' :: (serializeParams cid.params ++ rest))) =
        (.ok (cid.name P), serializeParams cid.params ++ rest) := by
    have hread := @reads_quoted input _ hfree (serializeParams cid.params ++ rest) trivial
    simpa using hread
  have hparams : readParams P input (serializeParams cid.params ++ rest) =
      (.ok cid.params, rest) := reads_serializeParams hP hcid.params rest hrest
  rw [ComponentId.serialize, List.cons_append, List.append_assoc, List.cons_append,
    readComponentId, bind_of_ok (skipSpaces_cons (by decide) _), bind_of_ok hstring,
    bind_of_ok hparams]
  rfl

theorem reads_components {components : List ComponentId}
    (hcomponents : ∀ cid ∈ components, IsComponent cid) :
    TextParser.Reads ClosesList (readComponents P input)
      (List.intercalate [' '] (components.map (·.serialize P)))
      (components.map (·.lowered P)) := by
  apply reads_whileDo
  · intro cid _ rest
    rfl
  · intro rest hrest
    rw [ClosesList] at hrest
    simp [hrest]
  · intro cid hcid other _ rest
    have hspace : EndsParams ([' '] ++ (other.serialize P ++ rest)) := by
      intro c hc
      cases hc
      exact Or.inr (Or.inr rfl)
    rw [readComponent, bind_of_ok (reads_component hP (hcomponents cid hcid) _ hspace)]
    rfl
  · intro cid hcid rest hrest
    have hparams : EndsParams rest := by
      intro c hc
      rw [hrest] at hc
      cases hc
      exact Or.inr (Or.inl rfl)
    have hspaces : skipSpaces rest = (.ok (), rest) :=
      reads_skipSpaces rest hrest.notAhead_space
    rw [readComponent, bind_of_ok (reads_component hP (hcomponents cid hcid) rest hparams),
      bind_of_ok hspaces]
    rfl

theorem reads_innerList {value : SignatureInputValue} (hvalue : IsInput value) :
    TextParser.Reads EndsParams (readInnerListWithParams P input) (value.serialize P)
      (value.lowered P) := by
  intro rest hrest
  have hopen : ∀ text, expect input '(' ('(' :: text) = (.ok (), text) :=
    fun text => reads_expect (by decide) text trivial
  have hclose : ∀ text, expect input ')' (')' :: text) = (.ok (), text) :=
    fun text => reads_expect (by decide) text trivial
  have hparams : readParams P input (serializeParams value.params ++ rest) =
      (.ok value.params, rest) := reads_serializeParams hP hvalue.params rest hrest
  have hcomponents : readComponents P input
      (List.intercalate [' '] (value.components.map (·.serialize P)) ++
        ')' :: (serializeParams value.params ++ rest)) =
      (.ok (value.components.map (·.lowered P)), ')' :: (serializeParams value.params ++ rest)) :=
    reads_components hP hvalue.components _ List.head?_cons
  have hspaces : ∀ text, skipSpaces
      (List.intercalate [' '] (value.components.map (·.serialize P)) ++ ')' :: text) =
      (.ok (), List.intercalate [' '] (value.components.map (·.serialize P)) ++ ')' :: text) := by
    intro text
    cases value.components with
    | nil => rfl
    | cons cid components =>
        obtain ⟨more, hmore⟩ := exists_intercalate_cons [' '] (cid.serialize P)
          (components.map (·.serialize P))
        rw [List.map_cons, hmore]
        exact skipSpaces_cons (by decide) _
  rw [SignatureInputValue.serialize, List.cons_append, List.append_assoc, List.cons_append,
    readInnerListWithParams, bind_of_ok (skipSpaces_cons (by decide) _), bind_of_ok (hopen _),
    bind_of_ok (hspaces _), bind_of_ok hcomponents, bind_of_ok (hclose _), bind_of_ok hparams]
  rfl

theorem reads_signature (bs : List UInt8) :
    TextParser.Reads EndsParams (readSignature P input) (serializeBytes bs) bs := by
  intro rest hrest
  have hskip : skipParams P input rest = (.ok (), rest) := by
    have hparams : readParams P input rest = (.ok [], rest) :=
      reads_serializeParams hP (List.forall_mem_nil _) rest hrest
    rw [skipParams, bind_of_ok hparams]
    rfl
  rw [readSignature, serializeBytes, bind_of_ok (reads_readByteSequence bs rest trivial),
    bind_of_ok hskip]
  rfl

end Entries

/-! ## Dictionaries -/

section Dict

variable {α β : Type} {item : TextParser ParseError β} {hitem : TakesAtLeast 0 item}
  {write : α → Str} {read : α → β}

/-- The whole text is read. -/
def AtEnd (rest : Str) : Prop := rest = []

theorem reads_entry {key text : Str} {value : β} (hkey : IsKey key)
    (hread : TextParser.Reads EndsParams item text value) {rest after : Str}
    (hrest : EndsParams rest)
    (hcomma : skipComma input rest = (.ok (), after)) :
    readEntry input item (key ++ '=' :: text ++ rest) = (.ok (key, value), after) := by
  have hkeyRun : readKey input (key ++ '=' :: (text ++ rest)) = (.ok key, '=' :: (text ++ rest)) :=
    reads_readKey hkey _ (notAhead_cons (by decide) _)
  have hequals : expect input '=' ('=' :: (text ++ rest)) = (.ok (), text ++ rest) :=
    reads_expect (by decide) _ trivial
  rw [List.append_assoc, List.cons_append, readEntry, bind_of_ok hkeyRun, bind_of_ok hequals,
    bind_of_ok (hread rest hrest), bind_of_ok hcomma]
  rfl

theorem skipComma_of_key {key : Str} (hkey : IsKey key) (rest : Str) :
    skipComma input (", ".toList ++ (key ++ rest)) = (.ok (), key ++ rest) := by
  have htext : ", ".toList ++ (key ++ rest) = ',' :: ' ' :: (key ++ rest) := rfl
  have hcomma : expect input ',' (',' :: ' ' :: (key ++ rest)) = (.ok (), ' ' :: (key ++ rest)) :=
    reads_expect (by decide) _ trivial
  have hspaces : skipSpaces (' ' :: (key ++ rest)) = (.ok (), key ++ rest) :=
    reads_skipSpaces (key ++ rest) (notAhead_space_of_isKey hkey rest)
  rw [htext, skipComma, bind_of_ok (skipSpaces_cons (by decide) _), get_bind_apply]
  simp only [List.isEmpty_cons, Bool.not_false, if_true]
  rw [bind_of_ok hcomma, hspaces]

theorem skipComma_of_atEnd {rest : Str} (hrest : AtEnd rest) :
    skipComma input rest = (.ok (), rest) := by
  rw [hrest]
  rfl

theorem endsParams_comma (rest : Str) : EndsParams (", ".toList ++ rest) := by
  intro c hc
  cases hc
  exact Or.inl rfl

theorem AtEnd.endsParams {rest : Str} (h : AtEnd rest) : EndsParams rest := by
  rw [h]
  intro c hc
  cases hc

theorem skipSpaces_serializeDict {entries : List (Str × α)}
    (hkeys : ∀ entry ∈ entries, IsKey entry.1) :
    skipSpaces (serializeDict write entries) = (.ok (), serializeDict write entries) := by
  cases entries with
  | nil => rfl
  | cons entry entries =>
      obtain ⟨more, hmore⟩ := exists_intercalate_cons ", ".toList (entry.1 ++ '=' :: write entry.2)
        (entries.map fun entry => entry.1 ++ '=' :: write entry.2)
      rw [serializeDict, List.map_cons, hmore, List.append_assoc]
      exact reads_skipSpaces _ (notAhead_space_of_isKey (hkeys entry List.mem_cons_self) _)

/-- A dictionary is read entry by entry, if its keys can be read and its values are read
up to a comma or the end. -/
theorem readDict_serializeDict {entries : List (Str × α)}
    (hkeys : ∀ entry ∈ entries, IsKey entry.1)
    (hread : ∀ entry ∈ entries, TextParser.Reads EndsParams item (write entry.2) (read entry.2)) :
    (readDict input item hitem (serializeDict write entries)).1 =
      .ok (entries.map fun entry => (entry.1, read entry.2)) := by
  have hloop : TextParser.Reads AtEnd (readEntries input item hitem) (serializeDict write entries)
      (entries.map fun entry => (entry.1, read entry.2)) := by
    apply reads_whileDo
    · intro entry _ rest
      simp
    · intro rest hrest
      rw [hrest]
      rfl
    · intro entry hentry other hother rest
      have hcomma : skipComma input
          (", ".toList ++ (other.1 ++ '=' :: write other.2 ++ rest)) =
            (.ok (), other.1 ++ '=' :: write other.2 ++ rest) := by
        rw [List.append_assoc]
        exact skipComma_of_key (hkeys other hother) _
      exact reads_entry (hkeys entry hentry) (hread entry hentry) (endsParams_comma _) hcomma
    · intro entry hentry rest hrest
      exact reads_entry (hkeys entry hentry) (hread entry hentry) hrest.endsParams
        (skipComma_of_atEnd hrest)
  have hrun := hloop [] rfl
  rw [List.append_nil] at hrun
  rw [readDict, bind_of_ok (skipSpaces_serializeDict hkeys), hrun]

end Dict

variable (hP : P.Standard)

include hP

/-- `Signature-Input` is read as it was written, with the names in lower case. -/
theorem parse_serializeSignatureInputDict {entries : List (Str × SignatureInputValue)}
    (hkeys : ∀ entry ∈ entries, IsKey entry.1) (hvalues : ∀ entry ∈ entries, IsInput entry.2) :
    parseSignatureInputDict P (serializeSignatureInputDict P entries) =
      .ok (entries.map fun entry => (entry.1, entry.2.lowered P)) :=
  readDict_serializeDict hkeys fun entry hentry => reads_innerList hP (hvalues entry hentry)

theorem parse_serializeSignatureDict {entries : List (Str × List UInt8)}
    (hkeys : ∀ entry ∈ entries, IsKey entry.1) :
    parseSignatureDict P (serializeSignatureDict entries) = .ok entries := by
  have hparse : parseSignatureDict P (serializeSignatureDict entries) =
      .ok (entries.map fun entry => (entry.1, id entry.2)) :=
    readDict_serializeDict hkeys fun entry _ => reads_signature hP entry.2
  rw [hparse]
  exact congrArg Except.ok (List.map_id entries)

end HttpSigStructuredFields

end Otoroshi
