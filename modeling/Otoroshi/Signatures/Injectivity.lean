/-
# What a signature says of a message

A signature is checked on the base that is built from the message. If two messages have one
base, a signature of the one is a signature of the other. The values on the lines of the
base have no line breaks if the message has none, with one exception: a parameter of the
query is decoded, and `%0A` is a line break then.

`values_eq_of_build_eq` says that messages with one base have the same covered values unless
two parameters of the query break their lines; `exists_build_eq` is what happens then.
-/

import Otoroshi.Foundation.Lines
import Otoroshi.Signatures.RoundTrip

namespace Otoroshi

open HttpSigStructuredFields

/-- A text of one line. -/
def OneLine (text : Str) : Prop := '\n' ∉ text

instance (text : Str) : Decidable (OneLine text) := inferInstanceAs (Decidable (¬ _))

theorem OneLine.append {text text' : Str} (h : OneLine text) (h' : OneLine text') :
    OneLine (text ++ text') := by
  simp only [OneLine, List.mem_append, not_or]
  exact ⟨h, h'⟩

theorem OneLine.cons {c : Char} {text : Str} (hc : c ≠ '\n') (h : OneLine text) :
    OneLine (c :: text) := by
  simp only [OneLine, List.mem_cons, not_or]
  exact ⟨hc.symm, h⟩

theorem oneLine_longText (n : Int) : OneLine (longText n) := by
  have hdigits : ∀ m, OneLine (Nat.toDigits 10 m) := by
    intro m hmem
    exact absurd (Nat.isDigit_of_mem_toDigits (by decide) (by decide) hmem) (by decide)
  rcases n with m | m
  · have htext : longText (Int.ofNat m) = Nat.toDigits 10 m := longText_ofNat m
    rw [htext]
    exact hdigits m
  · rw [longText_negSucc]
    exact (hdigits (m + 1)).cons (by decide)

theorem oneLine_intercalate {separator : Str} {texts : List Str} (hseparator : OneLine separator)
    (htexts : ∀ text ∈ texts, OneLine text) : OneLine (List.intercalate separator texts) := by
  induction texts with
  | nil => exact List.not_mem_nil
  | cons text texts ih =>
      rw [List.forall_mem_cons] at htexts
      cases texts with
      | nil =>
          rw [List.intercalate_singleton]
          exact htexts.1
      | cons other texts =>
          rw [List.intercalate_cons_cons]
          exact (htexts.1.append hseparator).append (ih htexts.2)

/-- An address in parts of one line. -/
structure JavaUri.OneLine (uri : JavaUri) : Prop where
  scheme : ∀ s ∈ uri.scheme, Otoroshi.OneLine s
  host : ∀ s ∈ uri.host, Otoroshi.OneLine s
  rawPath : ∀ s ∈ uri.rawPath, Otoroshi.OneLine s
  rawQuery : ∀ s ∈ uri.rawQuery, Otoroshi.OneLine s

/-- A message without line breaks in its method, its address and its headers. -/
structure HttpSigMessage.OneLine (msg : HttpSigMessage) : Prop where
  method : Otoroshi.OneLine msg.method
  fullUri : Otoroshi.OneLine msg.fullUri
  headers : ∀ header ∈ msg.headers, Otoroshi.OneLine header.2

/-- The platform makes no line breaks where there are none. -/
structure SigPlatform.KeepsLines (P : SigPlatform) : Prop where
  toLowerCase : ∀ s, OneLine s → OneLine (P.toLowerCase s)
  toUpperCase : ∀ s, OneLine s → OneLine (P.toUpperCase s)
  parseUri : ∀ text uri, P.parseUri text = some uri → OneLine text → uri.OneLine

namespace HttpSigBase

variable {P : SigPlatform} {target : HttpSigMessage}

theorem orLeft_eq_ok_iff {value : Option Str} {message v : Str} :
    orLeft value message = .ok v ↔ value = some v := by
  cases value <;> simp [orLeft]

theorem oneLine_rawPath {uri : JavaUri} (h : uri.OneLine) : OneLine (rawPath uri) := by
  rw [rawPath]
  cases hpath : uri.rawPath.filter fun p => !p.isEmpty with
  | none => exact (by decide : '\n' ∉ "/".toList)
  | some p => exact h.rawPath p (Option.mem_filter_iff.mp hpath).1

theorem oneLine_rawQuery {uri : JavaUri} (h : uri.OneLine) {otherwise : Str}
    (hotherwise : OneLine otherwise) :
    OneLine ((uri.rawQuery.map ('?' :: ·)).getD otherwise) := by
  cases hquery : uri.rawQuery with
  | none => exact hotherwise
  | some q => exact (h.rawQuery q hquery).cons (by decide)

theorem oneLine_trim {text : Str} (h : OneLine text) : OneLine (trim text) := by
  intro hmem
  rw [trim] at hmem
  have hdropped : '\n' ∈ text.dropWhile isTrimmed := (List.rdropWhile_prefix _ _).subset hmem
  exact h ((List.dropWhile_suffix _).mem hdropped)

/-- The values of a header on one line. -/
theorem oneLine_header {P : CharPlatform} (htarget : target.OneLine) {name raw : Str}
    (h : target.header P name = some raw) : OneLine raw := by
  simp only [HttpSigMessage.header] at h
  split at h
  · cases h
  · cases h
    apply oneLine_intercalate (by decide : '\n' ∉ ", ".toList)
    intro text htext
    obtain ⟨value, hvalue, rfl⟩ := List.mem_map.mp htext
    obtain ⟨header, hheader, rfl⟩ := List.mem_map.mp hvalue
    exact oneLine_trim (htarget.headers header (List.mem_of_mem_filter hheader))

theorem oneLine_encode (bytes : List UInt8) : OneLine (Base64.encode bytes) := by
  have hbreak : '\n' ∉ '=' :: Base64.alphabet := by decide +kernel
  exact fun hmem => hbreak (Base64.mem_alphabet_of_mem_encode hmem)

theorem oneLine_headerValue (htarget : target.OneLine) {cid : ComponentId} {v : Str}
    (h : headerValue P target cid = .ok v) : OneLine v := by
  obtain ⟨raw, hraw, hv⟩ := bind_eq_ok_iff.mp h
  have hline := oneLine_header htarget (orLeft_eq_ok_iff.mp hraw)
  split at hv
  · cases hv
    exact ((oneLine_encode _).append (by decide : '\n' ∉ [':'])).cons (by decide)
  · cases hv
    exact hline

section Values

variable (hP : P.KeepsLines) (htarget : target.OneLine) {v : Str}

include hP htarget

theorem oneLine_of_parseUri {uri : JavaUri} (h : P.parseUri target.fullUri = some uri) :
    uri.OneLine :=
  hP.parseUri _ uri h htarget.fullUri

theorem oneLine_authority (h : authority P target = .ok v) : OneLine v := by
  rw [authority, orLeft_eq_ok_iff] at h
  obtain ⟨uri, huri, hhost⟩ := Option.bind_eq_some_iff.mp h
  obtain ⟨host, hhost, hv⟩ := Option.map_eq_some_iff.mp hhost
  have hlower := hP.toLowerCase host ((oneLine_of_parseUri hP htarget huri).host host hhost)
  simp only at hv
  split at hv
  · rwa [← hv]
  · rw [← hv]
    exact hlower.append ((oneLine_longText uri.port).cons (by decide))

theorem oneLine_scheme (h : scheme P target = .ok v) : OneLine v := by
  rw [scheme, orLeft_eq_ok_iff] at h
  obtain ⟨s, hs, rfl⟩ := Option.map_eq_some_iff.mp h
  obtain ⟨uri, huri, hscheme⟩ := Option.bind_eq_some_iff.mp hs
  exact hP.toLowerCase s ((oneLine_of_parseUri hP htarget huri).scheme s hscheme)

theorem oneLine_requestTarget (h : requestTarget P target = .ok v) : OneLine v := by
  rw [requestTarget, orLeft_eq_ok_iff] at h
  obtain ⟨uri, huri, rfl⟩ := Option.map_eq_some_iff.mp h
  have huri := oneLine_of_parseUri hP htarget huri
  exact (oneLine_rawPath huri).append (oneLine_rawQuery huri List.not_mem_nil)

theorem oneLine_path (h : path P target = .ok v) : OneLine v := by
  rw [path, orLeft_eq_ok_iff] at h
  obtain ⟨uri, huri, rfl⟩ := Option.map_eq_some_iff.mp h
  exact oneLine_rawPath (oneLine_of_parseUri hP htarget huri)

theorem oneLine_query (h : query P target = .ok v) : OneLine v := by
  rw [query, orLeft_eq_ok_iff] at h
  obtain ⟨uri, huri, rfl⟩ := Option.map_eq_some_iff.mp h
  exact oneLine_rawQuery (oneLine_of_parseUri hP htarget huri) (by decide : '\n' ∉ "?".toList)

theorem oneLine_targetValue {cid : ComponentId} (h : targetValue P target cid = .ok v) :
    OneLine v ∨ (cid.name P.toCharPlatform = "@query-param".toList ∧
      queryParam P target cid = .ok v) := by
  rw [targetValue] at h
  rcases ite_eq_iff.mp h with ⟨-, h⟩ | ⟨-, h⟩
  · cases h
    exact Or.inl (hP.toUpperCase _ htarget.method)
  rcases ite_eq_iff.mp h with ⟨-, h⟩ | ⟨-, h⟩
  · cases h
    exact Or.inl htarget.fullUri
  rcases ite_eq_iff.mp h with ⟨-, h⟩ | ⟨-, h⟩
  · exact Or.inl (oneLine_authority hP htarget h)
  rcases ite_eq_iff.mp h with ⟨-, h⟩ | ⟨-, h⟩
  · exact Or.inl (oneLine_scheme hP htarget h)
  rcases ite_eq_iff.mp h with ⟨-, h⟩ | ⟨-, h⟩
  · exact Or.inl (oneLine_requestTarget hP htarget h)
  rcases ite_eq_iff.mp h with ⟨-, h⟩ | ⟨-, h⟩
  · exact Or.inl (oneLine_path hP htarget h)
  rcases ite_eq_iff.mp h with ⟨-, h⟩ | ⟨-, h⟩
  · exact Or.inl (oneLine_query hP htarget h)
  rcases ite_eq_iff.mp h with ⟨hname, h⟩ | ⟨-, h⟩
  · exact Or.inr ⟨hname, h⟩
  rcases ite_eq_iff.mp h with ⟨-, h⟩ | ⟨-, h⟩
  · rw [status, orLeft_eq_ok_iff] at h
    obtain ⟨s, hs, rfl⟩ := Option.map_eq_some_iff.mp h
    exact Or.inl (oneLine_longText s)
  rcases ite_eq_iff.mp h with ⟨-, h⟩ | ⟨-, h⟩
  · cases h
  · exact Or.inl (oneLine_headerValue htarget h)

end Values

/-- The component is a parameter of the query of the message, with a line break in its
value. -/
def BreaksLine (P : SigPlatform) (msg : HttpSigMessage) (related : Option HttpSigMessage)
    (cid : ComponentId) : Prop :=
  cid.name P.toCharPlatform = "@query-param".toList ∧
    ∃ target ∈ (if cid.isReq then related else some msg), ∃ name ∈ cid.paramString "name".toList,
      ∃ qs ∈ (P.parseUri target.fullUri).bind JavaUri.rawQuery,
        ∃ pairs, parseQuery P qs = .ok pairs ∧
          ∃ pair ∈ pairs.find? (fun pair => pair.1 = name), '\n' ∈ pair.2

theorem pair_of_queryParam {cid : ComponentId} {v : Str} (h : queryParam P target cid = .ok v) :
    ∃ name ∈ cid.paramString "name".toList,
      ∃ qs ∈ (P.parseUri target.fullUri).bind JavaUri.rawQuery,
        ∃ pairs, parseQuery P qs = .ok pairs ∧
          ∃ pair ∈ pairs.find? (fun pair => pair.1 = name), pair.2 = v := by
  rw [queryParam] at h
  split at h
  · cases h
  · next name hname =>
      split at h
      · cases h
      · next qs hqs =>
          obtain ⟨pairs, hpairs, hfind⟩ := bind_eq_ok_iff.mp h
          split at hfind
          · cases hfind
          · next pair hpair =>
              cases hfind
              exact ⟨name, hname, qs, hqs, pairs, hpairs, pair, hpair, rfl⟩

theorem breaksLine_of_componentValue {msg : HttpSigMessage} {related : Option HttpSigMessage}
    {cid : ComponentId} {v : Str} (hP : P.KeepsLines) (hmsg : msg.OneLine)
    (hrelated : ∀ r ∈ related, r.OneLine) (h : componentValue P msg related cid = .ok v)
    (hv : '\n' ∈ v) : BreaksLine P msg related cid := by
  have hof : ∀ target : HttpSigMessage, target.OneLine → targetValue P target cid = .ok v →
      target ∈ (if cid.isReq then related else some msg) → BreaksLine P msg related cid := by
    intro target htarget hvalue hmem
    obtain hline | ⟨hname, hparam⟩ := oneLine_targetValue hP htarget hvalue
    · exact absurd hv hline
    · obtain ⟨name, hname', qs, hqs, pairs, hpairs, pair, hpair, rfl⟩ := pair_of_queryParam hparam
      exact ⟨hname, target, hmem, name, hname', qs, hqs, pairs, hpairs, pair, hpair, hv⟩
  simp only [componentValue] at h
  split at h
  · next hreq =>
      split at h
      · next r => exact hof r (hrelated r rfl) h (by rw [if_pos hreq]; rfl)
      · cases h
  · next hreq => exact hof msg hmsg h (by rw [if_neg hreq]; rfl)

/-! ## Bases as lines -/

/-- The value on the line of a component, where there is one. -/
def valueOf (P : SigPlatform) (msg : HttpSigMessage) (related : Option HttpSigMessage)
    (cid : ComponentId) : Str :=
  match componentValue P msg related cid with
  | .ok v => v
  | .error _ => []

theorem valueOf_eq {msg : HttpSigMessage} {related : Option HttpSigMessage} {cid : ComponentId}
    {v : Str} (h : componentValue P msg related cid = .ok v) : valueOf P msg related cid = v := by
  rw [valueOf, h]

/-- The label of a line, and its values in two messages. -/
def labelledValues (P : SigPlatform) (msg msg' : HttpSigMessage)
    (related related' : Option HttpSigMessage) (cid : ComponentId) : LabelledValues where
  label := cid.serialize P.toCharPlatform ++ ": ".toList
  first := valueOf P msg related cid
  second := valueOf P msg' related' cid

/-- All components have a value when there are lines, and the lines are those. -/
theorem buildLines_eq_ok {msg : HttpSigMessage} {related : Option HttpSigMessage}
    {seenIds : List Str} {cids : List ComponentId} {text : Str}
    (h : buildLines P msg related seenIds cids = .ok text) :
    (∀ cid ∈ cids, componentValue P msg related cid = .ok (valueOf P msg related cid)) ∧
      text = cids.flatMap fun cid =>
        LabelledValues.line (cid.serialize P.toCharPlatform ++ ": ".toList)
          (valueOf P msg related cid) := by
  induction cids generalizing seenIds text with
  | nil =>
      cases h
      exact ⟨List.forall_mem_nil _, rfl⟩
  | cons cid cids ih =>
      simp only [buildLines] at h
      split at h
      · cases h
      · obtain ⟨v, hv, h⟩ := bind_eq_ok_iff.mp h
        obtain ⟨lines, hlines, h⟩ := bind_eq_ok_iff.mp h
        obtain ⟨hvalues, hrest⟩ := ih hlines
        have hvalue := valueOf_eq hv
        cases h
        constructor
        · rw [List.forall_mem_cons, hvalue]
          exact ⟨hv, hvalues⟩
        · rw [List.flatMap_cons, ← hrest, hvalue]
          simp [LabelledValues.line]

/-- No two parameters of the query break their lines, one in each message. -/
def LinesApart (P : SigPlatform) (input : SignatureInputValue) (msg msg' : HttpSigMessage)
    (related related' : Option HttpSigMessage) : Prop :=
  input.components.Pairwise fun x y =>
    ¬ (BreaksLine P msg related x ∧ BreaksLine P msg' related' y) ∧
      ¬ (BreaksLine P msg' related' x ∧ BreaksLine P msg related y)

/-- Messages with one base have the same values for what it covers, if no two parameters of
the query break their lines. -/
theorem values_eq_of_build_eq (P : SigPlatform) (hP : P.KeepsLines) (input : SignatureInputValue)
    (msg msg' : HttpSigMessage) (related related' : Option HttpSigMessage) (hmsg : msg.OneLine)
    (hmsg' : msg'.OneLine) (hrelated : ∀ r ∈ related, r.OneLine)
    (hrelated' : ∀ r ∈ related', r.OneLine)
    (hapart : LinesApart P input msg msg' related related') (base : Str)
    (hbuild : build P msg input related = .ok base)
    (hbuild' : build P msg' input related' = .ok base) :
    ∀ cid ∈ input.components,
      componentValue P msg related cid = componentValue P msg' related' cid := by
  obtain ⟨text, hlines, hbase⟩ := bind_eq_ok_iff.mp hbuild
  obtain ⟨text', hlines', hbase'⟩ := bind_eq_ok_iff.mp hbuild'
  obtain ⟨hvalues, htext⟩ := buildLines_eq_ok hlines
  obtain ⟨hvalues', htext'⟩ := buildLines_eq_ok hlines'
  have hsame : text = text' := by
    cases hbase
    have heq := Except.ok.inj hbase'
    simp only [List.append_assoc] at heq
    exact (List.append_cancel_right heq).symm
  have hitems : LabelledValues.lines LabelledValues.first
      (input.components.map (labelledValues P msg msg' related related')) =
        LabelledValues.lines LabelledValues.second
          (input.components.map (labelledValues P msg msg' related related')) := by
    rw [LabelledValues.lines, LabelledValues.lines, List.flatMap_map, List.flatMap_map]
    exact (htext.symm.trans hsame).trans htext'
  have hbreaks : ∀ cid ∈ input.components, '\n' ∈ valueOf P msg related cid →
      BreaksLine P msg related cid := by
    intro cid hcid
    exact breaksLine_of_componentValue hP hmsg hrelated (hvalues cid hcid)
  have hbreaks' : ∀ cid ∈ input.components, '\n' ∈ valueOf P msg' related' cid →
      BreaksLine P msg' related' cid := by
    intro cid hcid
    exact breaksLine_of_componentValue hP hmsg' hrelated' (hvalues' cid hcid)
  have hpairwise : (input.components.map
      (labelledValues P msg msg' related related')).Pairwise LabelledValues.Apart := by
    rw [List.pairwise_map]
    apply hapart.imp_of_mem
    intro x y hx hy hxy
    constructor
    · intro h
      exact hxy.1 ⟨hbreaks x hx h.1, hbreaks' y hy h.2⟩
    · intro h
      exact hxy.2 ⟨hbreaks' x hx h.1, hbreaks y hy h.2⟩
  intro cid hcid
  rw [hvalues cid hcid, hvalues' cid hcid]
  exact congrArg Except.ok (LabelledValues.values_eq_of_lines_eq hpairwise hitems _
    (List.mem_map_of_mem hcid))

section Examples

theorem toNat_toUpper (c : Char) : c.toUpper.toNat =
    if 97 ≤ c.toNat ∧ c.toNat ≤ 122 then c.toNat - 32 else c.toNat := by
  unfold Char.toUpper
  split
  · next h =>
      have hlower : 97 ≤ c.toNat ∧ c.toNat ≤ 122 := h
      have hshift : ('A'.val - 'a'.val).toNat = 4294967264 := rfl
      have hval : c.val.toNat = c.toNat := rfl
      rw [if_pos hlower]
      show (c.val + ('A'.val - 'a'.val)).toNat = c.toNat - 32
      rw [UInt32.toNat_add, hshift, hval]
      omega
  · next h =>
      have hother : ¬ (97 ≤ c.toNat ∧ c.toNat ≤ 122) := h
      rw [if_neg hother]

theorem oneLine_splitFirst {separator : Char} {s : Str} (h : OneLine s) :
    OneLine (splitFirst separator s).1 ∧ ∀ after ∈ (splitFirst separator s).2, OneLine after := by
  constructor
  · intro hmem
    exact h ((List.takeWhile_prefix _).subset hmem)
  · intro after hafter hmem
    rw [splitFirst] at hafter
    split at hafter
    · cases hafter
      exact h ((List.dropWhile_suffix _).subset (List.mem_of_mem_drop hmem))
    · cases hafter

theorem oneLine_asciiUri {text : Str} {uri : JavaUri} (h : asciiUri text = some uri)
    (htext : OneLine text) : uri.OneLine := by
  rw [asciiUri] at h
  split at h
  · split at h
    · next scheme rest hsplit =>
        have hscheme := @oneLine_splitFirst ':' _ htext
        rw [hsplit] at hscheme
        have hrest : OneLine rest := by
          intro hmem
          exact hscheme.2 _ rfl (List.mem_cons_of_mem _ (List.mem_cons_of_mem _ hmem))
        have haddress := @oneLine_splitFirst '?' _ hrest
        have hhost := @oneLine_splitFirst '/' _ haddress.1
        cases h
        refine ⟨?_, ?_, ?_, haddress.2⟩
        · intro s hs
          cases hs
          exact hscheme.1
        · intro s hs
          cases hs
          exact hhost.1
        · intro s hs
          obtain ⟨path, hpath, rfl⟩ := Option.map_eq_some_iff.mp hs
          exact (hhost.2 path hpath).cons (by decide)
    · cases h
  · cases h

theorem keepsLines_asciiPlatform : asciiPlatform.KeepsLines where
  toLowerCase := by
    intro s hs hmem
    obtain ⟨c, hc, hlower⟩ := List.mem_map.mp hmem
    rw [eq_of_toLower_eq (by decide) hlower] at hc
    exact hs hc
  toUpperCase := by
    intro s hs hmem
    obtain ⟨c, hc, hupper⟩ := List.mem_map.mp hmem
    have hnat : c.toUpper.toNat = 10 := congrArg Char.toNat hupper
    rw [toNat_toUpper] at hnat
    have heq : c = '\n' := by
      apply Char.toNat_inj.mp
      show c.toNat = 10
      split at hnat <;> omega
    rw [heq] at hc
    exact hs hc
  parseUri := fun _ _ => oneLine_asciiUri

/-- A component for a parameter of the query. -/
def queryParamId (name : Str) : ComponentId :=
  ⟨"@query-param".toList, [("name".toList, .string name)]⟩

def getOf (fullUri : Str) : HttpSigMessage := { method := "GET".toList, fullUri := fullUri }

def exampleQueryInput : SignatureInputValue where
  components := [⟨"@method".toList, []⟩, queryParamId "a".toList, queryParamId "b".toList]

/-- One parameter of the query can break its line. -/
def oneParamInput : SignatureInputValue where
  components := [⟨"@method".toList, []⟩, queryParamId "a".toList]

def oneParamBase : Str :=
  "\"@method\": GET\n\"@query-param\";name=\"a\": 1\n\n\"@signature-params\": ".toList ++
    oneParamInput.serialize asciiPlatform.toCharPlatform

theorem values_eq_of_build_eq_example :
    componentValue asciiPlatform (getOf "https://h/?a=1%0A".toList) none
        (queryParamId "a".toList) =
      componentValue asciiPlatform (getOf "https://h/b?a=1%0A".toList) none
        (queryParamId "a".toList) := by
  have hfirst : (getOf "https://h/?a=1%0A".toList).OneLine :=
    ⟨by decide, by decide, List.forall_mem_nil _⟩
  have hsecond : (getOf "https://h/b?a=1%0A".toList).OneLine :=
    ⟨by decide, by decide, List.forall_mem_nil _⟩
  have hmethod : ∀ msg : HttpSigMessage,
      ¬ BreaksLine asciiPlatform msg none ⟨"@method".toList, []⟩ := by
    intro msg h
    exact absurd h.1 (by decide)
  have hapart : LinesApart asciiPlatform oneParamInput (getOf "https://h/?a=1%0A".toList)
      (getOf "https://h/b?a=1%0A".toList) none none :=
    List.pairwise_pair.mpr ⟨fun h => hmethod _ h.1, fun h => hmethod _ h.1⟩
  exact values_eq_of_build_eq asciiPlatform keepsLines_asciiPlatform oneParamInput _ _ none none
    hfirst hsecond (by simp) (by simp) hapart oneParamBase (by decide +kernel)
    (by decide +kernel) (queryParamId "a".toList) (by decide)

/-- Two requests, with the same text after the first value: once it belongs to the second
parameter, once to the first. -/
def movedToSecond : HttpSigMessage :=
  getOf "https://h/?a=x&b=y%0A%22@query-param%22;name=%22b%22:%20z".toList

def movedToFirst : HttpSigMessage :=
  getOf "https://h/?a=x%0A%22@query-param%22;name=%22b%22:%20y&b=z".toList

def movedBase : Str :=
  "\"@method\": GET\n\"@query-param\";name=\"a\": x\n\"@query-param\";name=\"b\": y\n".toList ++
    "\"@query-param\";name=\"b\": z\n\"@signature-params\": ".toList ++
      exampleQueryInput.serialize asciiPlatform.toCharPlatform

theorem exists_build_eq :
    ¬ ∀ (input : SignatureInputValue) (msg msg' : HttpSigMessage) (base : Str), msg.OneLine →
      msg'.OneLine → build asciiPlatform msg input none = .ok base →
        build asciiPlatform msg' input none = .ok base →
          ∀ cid ∈ input.components,
            componentValue asciiPlatform msg none cid =
              componentValue asciiPlatform msg' none cid := by
  intro h
  have hfirst : movedToSecond.OneLine := ⟨by decide, by decide, List.forall_mem_nil _⟩
  have hsecond : movedToFirst.OneLine := ⟨by decide, by decide, List.forall_mem_nil _⟩
  have hbuild : build asciiPlatform movedToSecond exampleQueryInput none = .ok movedBase := by
    decide +kernel
  have hbuild' : build asciiPlatform movedToFirst exampleQueryInput none = .ok movedBase := by
    decide +kernel
  have hvalues := h exampleQueryInput _ _ _ hfirst hsecond hbuild hbuild'
    (queryParamId "b".toList) (by decide)
  exact absurd hvalues (by decide +kernel)

end Examples

end HttpSigBase

end Otoroshi
