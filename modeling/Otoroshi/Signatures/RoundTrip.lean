/-
# The fields of a signature, written and read

A signer writes the fields, and a verifier reads them and builds the text again that was
signed. It gets the components with their names in lower case, as they stand in the field;
the text is the same, for that is what it is built from.
-/

import Otoroshi.Signatures.Base

namespace Otoroshi

open HttpSigStructuredFields

variable {P : SigPlatform}

namespace HttpSigStructuredFields

section Lowered

variable {P : CharPlatform} (hP : P.Standard)

include hP

theorem ComponentId.name_lowered (cid : ComponentId) : (cid.lowered P).name P = cid.name P :=
  hP.toLowerCase_idem cid.rawName

theorem ComponentId.serialize_lowered (cid : ComponentId) :
    (cid.lowered P).serialize P = cid.serialize P := by
  rw [ComponentId.serialize, ComponentId.name_lowered hP]
  rfl

theorem SignatureInputValue.serialize_lowered (value : SignatureInputValue) :
    (value.lowered P).serialize P = value.serialize P := by
  have hcomponents : (value.lowered P).components.map (·.serialize P) =
      value.components.map (·.serialize P) := by
    rw [SignatureInputValue.lowered, List.map_map]
    apply List.map_congr_left
    intro cid _
    exact ComponentId.serialize_lowered hP cid
  rw [SignatureInputValue.serialize, hcomponents]
  rfl

omit hP in
/-- Names that are in lower case stay what they are. -/
theorem SignatureInputValue.lowered_of_names {value : SignatureInputValue}
    (hnames : ∀ cid ∈ value.components, cid.name P = cid.rawName) : value.lowered P = value := by
  have hcomponents : value.components.map (·.lowered P) = value.components.map id := by
    apply List.map_congr_left
    intro cid hcid
    rw [ComponentId.lowered, hnames cid hcid]
    rfl
  rw [lowered, hcomponents, List.map_id]

end Lowered

end HttpSigStructuredFields

namespace HttpSigBase

variable (hP : P.toCharPlatform.Standard)

include hP

theorem targetValue_lowered (target : HttpSigMessage) (cid : ComponentId) :
    targetValue P target (cid.lowered P.toCharPlatform) = targetValue P target cid := by
  have hname := ComponentId.name_lowered hP cid
  simp only [targetValue, headerValue, hname]
  rfl

theorem componentValue_lowered (msg : HttpSigMessage) (related : Option HttpSigMessage)
    (cid : ComponentId) :
    componentValue P msg related (cid.lowered P.toCharPlatform) =
      componentValue P msg related cid := by
  cases related with
  | none =>
      simp only [componentValue, targetValue_lowered hP, ComponentId.serialize_lowered hP]
      rfl
  | some r =>
      simp only [componentValue, targetValue_lowered hP]
      rfl

theorem buildLines_lowered (msg : HttpSigMessage) (related : Option HttpSigMessage)
    (seenIds : List Str) (cids : List ComponentId) :
    buildLines P msg related seenIds (cids.map (·.lowered P.toCharPlatform)) =
      buildLines P msg related seenIds cids := by
  induction cids generalizing seenIds with
  | nil => rfl
  | cons cid cids ih =>
      simp only [List.map_cons, buildLines, ComponentId.serialize_lowered hP,
        componentValue_lowered hP, ih]

theorem build_lowered (msg : HttpSigMessage) (value : SignatureInputValue)
    (related : Option HttpSigMessage) :
    build P msg (value.lowered P.toCharPlatform) related = build P msg value related := by
  have hlines : buildLines P msg related [] (value.lowered P.toCharPlatform).components =
      buildLines P msg related [] value.components :=
    buildLines_lowered hP msg related [] value.components
  simp only [build, hlines, SignatureInputValue.serialize_lowered hP]

end HttpSigBase

/-! ## Round trips -/

namespace HttpSigStructuredFields

/-- What was written is read, but for the names, which are in lower case afterwards. The
text to sign is the same for what was written and for what is read. -/
theorem parse_serialize_lowered (P : SigPlatform) (hP : P.toCharPlatform.Standard)
    (entries : List (Str × SignatureInputValue)) (hkeys : ∀ entry ∈ entries, IsKey entry.1)
    (hvalues : ∀ entry ∈ entries, IsInput entry.2) (signatures : List (Str × List UInt8))
    (hlabels : ∀ entry ∈ signatures, IsKey entry.1) :
    parseSignatureInputDict P.toCharPlatform
        (serializeSignatureInputDict P.toCharPlatform entries) =
      .ok (entries.map fun entry => (entry.1, entry.2.lowered P.toCharPlatform)) ∧
    (∀ entry ∈ entries, ∀ (msg : HttpSigMessage) (related : Option HttpSigMessage),
      HttpSigBase.build P msg (entry.2.lowered P.toCharPlatform) related =
        HttpSigBase.build P msg entry.2 related) ∧
    ((∀ entry ∈ entries, ∀ cid ∈ entry.2.components, cid.name P.toCharPlatform = cid.rawName) →
      parseSignatureInputDict P.toCharPlatform
        (serializeSignatureInputDict P.toCharPlatform entries) = .ok entries) ∧
    parseSignatureDict P.toCharPlatform (serializeSignatureDict signatures) = .ok signatures := by
  have hparse := parse_serializeSignatureInputDict hP hkeys hvalues
  refine ⟨hparse, ?_, ?_, parse_serializeSignatureDict hP hlabels⟩
  · intro entry _ msg related
    exact HttpSigBase.build_lowered hP msg entry.2 related
  · intro hnames
    have hentries : (entries.map fun entry => (entry.1, entry.2.lowered P.toCharPlatform)) =
        entries.map id := by
      apply List.map_congr_left
      intro entry hentry
      rw [SignatureInputValue.lowered_of_names (hnames entry hentry)]
      rfl
    rw [hparse, hentries, List.map_id]

end HttpSigStructuredFields

/-! ## A platform -/

def hexValue (c : Char) : Option Nat :=
  if c.isDigit then some (c.toNat - 48)
  else if 'A' ≤ c ∧ c ≤ 'F' then some (c.toNat - 55)
  else if 'a' ≤ c ∧ c ≤ 'f' then some (c.toNat - 87)
  else none

/-- Percent-decoding of single bytes, with `+` for the space. -/
def decodeAscii : Str → Option Str
  | [] => some []
  | '+' :: rest => (decodeAscii rest).map (' ' :: ·)
  | '%' :: a :: b :: rest => do
      let x ← hexValue a
      let y ← hexValue b
      let more ← decodeAscii rest
      some (Char.ofNat (16 * x + y) :: more)
  | '%' :: _ => none
  | c :: rest => (decodeAscii rest).map (c :: ·)

/-- `scheme://host/path?query` -/
def asciiUri (text : Str) : Option JavaUri :=
  if text.all fun c => ' ' < c && c.toNat < 127 then
    match splitFirst ':' text with
    | (scheme, some ('/' :: '/' :: rest)) =>
        let (address, rawQuery) := splitFirst '?' rest
        let (host, path) := splitFirst '/' address
        some { scheme := some scheme, host := some host, rawPath := path.map ('/' :: ·),
               rawQuery := rawQuery }
    | _ => none
  else none

/-- A platform for ASCII texts, with addresses that have no port. -/
def asciiPlatform : SigPlatform where
  toLowerCase s := s.map Char.toLower
  digit := asciiDigit
  toUpperCase s := s.map Char.toUpper
  parseUri := asciiUri
  urlDecode := decodeAscii

theorem standard_asciiPlatform : asciiPlatform.toCharPlatform.Standard where
  readsDigits := readsDigits_asciiDigit
  digit_of_ascii := by
    intro c _ hc
    have hsome : (asciiDigit c).isSome = true := hc
    rw [asciiDigit] at hsome
    split at hsome
    · assumption
    · cases hsome
  toLowerCase_idem := by
    intro s
    show (s.map Char.toLower).map Char.toLower = s.map Char.toLower
    rw [List.map_map]
    apply List.map_congr_left
    intro c _
    exact toLower_toLower c
  mem_toLowerCase := by
    intro s c hc hmem
    obtain ⟨d, hd, hlower⟩ := List.mem_map.mp hmem
    have hsmall : c.toNat < 97 := by
      obtain rfl | rfl := hc <;> decide
    rwa [← eq_of_toLower_eq hsmall hlower]

namespace HttpSigStructuredFields

/-- A signature of a header and a parameter of the query, with a tag that is quoted. -/
def exampleInput : SignatureInputValue where
  components := [⟨"Content-Digest".toList, []⟩,
    ⟨"@query-param".toList, [("name".toList, .string "id".toList)]⟩]
  params := [("created".toList, .int ⟨1700000000, rfl⟩), ("tag".toList, .string "a \"b\"".toList),
    ("alg".toList, .token "hmac-sha256".toList), ("flag".toList, .bool true)]

theorem isKey_of_all {key : Str} (hne : key.isEmpty = false) (h : key.all isKeyChar = true) :
    IsKey key :=
  ⟨List.isEmpty_eq_false_iff.mp hne, List.all_eq_true.mp h⟩

theorem isKey_label : IsKey "sig1".toList := isKey_of_all rfl rfl

theorem unquoted_of_all {name : Str}
    (h : (name.all fun c => c != '"' && c != '\\') = true) : ∀ c ∈ name, c ≠ '"' ∧ c ≠ '\\' := by
  simpa using h

theorem isParam_of_ne_token {k : Str} {value : Param} (hk : IsKey k)
    (hvalue : ∀ v, value ≠ .token v) : IsParam (k, value) :=
  ⟨hk, fun v h => absurd h (hvalue v)⟩

theorem isInput_exampleInput : IsInput exampleInput := by
  constructor
  · intro cid hcid
    obtain rfl | rfl : cid = ⟨"Content-Digest".toList, []⟩ ∨
        cid = ⟨"@query-param".toList, [("name".toList, .string "id".toList)]⟩ := by
      simpa [exampleInput] using hcid
    · exact ⟨unquoted_of_all rfl, List.forall_mem_nil _⟩
    · constructor
      · exact unquoted_of_all rfl
      · intro param hparam
        rw [List.mem_singleton.mp hparam]
        exact isParam_of_ne_token (isKey_of_all rfl rfl) (by simp)
  · intro param hparam
    obtain rfl | rfl | rfl | rfl : param = ("created".toList, .int ⟨1700000000, rfl⟩) ∨
        param = ("tag".toList, .string "a \"b\"".toList) ∨
          param = ("alg".toList, .token "hmac-sha256".toList) ∨
            param = ("flag".toList, .bool true) := by
      simpa [exampleInput] using hparam
    · exact isParam_of_ne_token (isKey_of_all rfl rfl) (by simp)
    · exact isParam_of_ne_token (isKey_of_all rfl rfl) (by simp)
    · constructor
      · exact isKey_of_all rfl rfl
      · intro v hv
        cases hv
        exact ⟨⟨'h', rfl, Or.inl (by decide)⟩, List.all_eq_true.mp rfl⟩
    · exact isParam_of_ne_token (isKey_of_all rfl rfl) (by simp)

theorem forall_exampleEntries {p : Str × SignatureInputValue → Prop}
    (h : p ("sig1".toList, exampleInput)) : ∀ entry ∈ [("sig1".toList, exampleInput)], p entry := by
  intro entry hentry
  rwa [List.mem_singleton.mp hentry]

theorem parse_serialize_lowered_example :
    parseSignatureInputDict asciiPlatform.toCharPlatform
      (serializeSignatureInputDict asciiPlatform.toCharPlatform [("sig1".toList, exampleInput)]) =
    .ok [("sig1".toList, exampleInput.lowered asciiPlatform.toCharPlatform)] := by
  have hkeys := forall_exampleEntries (p := fun entry => IsKey entry.1) isKey_label
  have hvalues := forall_exampleEntries (p := fun entry => IsInput entry.2) isInput_exampleInput
  exact (parse_serialize_lowered asciiPlatform standard_asciiPlatform _ hkeys hvalues []
    (List.forall_mem_nil _)).1

/-- The name of a header that is written with capitals does not come back. -/
theorem exists_parse_serialize_ne :
    ¬ ∀ entries : List (Str × SignatureInputValue), (∀ entry ∈ entries, IsKey entry.1) →
      (∀ entry ∈ entries, IsInput entry.2) →
        parseSignatureInputDict asciiPlatform.toCharPlatform
          (serializeSignatureInputDict asciiPlatform.toCharPlatform entries) = .ok entries := by
  intro h
  have hkeys := forall_exampleEntries (p := fun entry => IsKey entry.1) isKey_label
  have hvalues := forall_exampleEntries (p := fun entry => IsInput entry.2) isInput_exampleInput
  have hsame := h _ hkeys hvalues
  rw [parse_serializeSignatureInputDict standard_asciiPlatform hkeys hvalues] at hsame
  have hnames : [exampleInput.lowered asciiPlatform.toCharPlatform] = [exampleInput] :=
    congrArg (List.map Prod.snd) (Except.ok.inj hsame)
  exact absurd hnames (by decide)

end HttpSigStructuredFields

end Otoroshi
