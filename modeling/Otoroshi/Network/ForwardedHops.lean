/-
# Forwarded headers, from hop to hop

What the next hop reads from a written `Forwarded` header, element by element, and when this is
the chain that was written. Every element is read by itself, and its fields by themselves, as long
as no text of it has a separator. Then `readsBack_iff` compares what is read with the chain: an
address that is lost leaves no place to another one, so the two lists agree only where every
address agrees.
-/

import Otoroshi.Foundation.Segments
import Otoroshi.Network.ForwardedHeader

namespace Otoroshi

open QuotedString IpAddresses

/-! ## The pieces of a text -/

theorem mem_split {separator : Char} {s piece : Str} (h : piece ∈ split separator s) :
    separator ∉ piece ∧ ∀ c ∈ piece, c ∈ s := by
  unfold split at h
  split at h
  · exact mem_splitOn ((List.rdropWhile_prefix _ _).subset h)
  · next hnot =>
      rw [List.mem_singleton] at h
      subst h
      exact ⟨hnot, fun _ hc => hc⟩

theorem split_of_notMem {separator : Char} {s : Str} (h : separator ∉ s) :
    split separator s = [s] := if_neg h

namespace ForwardedHeader

variable {P : AddressPlatform}

/-- An element of the header, before it is written. -/
structure Hop where
  address : Str
  host : Str
  proto : Str

def Hop.element (hop : Hop) : Str := ForwardedHeader.element hop.address hop.host hop.proto

/-- No text of the element has a separator. -/
def NoSeparator (text : Str) : Prop := ',' ∉ text ∧ ';' ∉ text

instance (text : Str) : Decidable (NoSeparator text) := instDecidableAnd

def Hop.NoSeparators (hop : Hop) : Prop :=
  NoSeparator hop.address ∧ NoSeparator hop.host ∧ NoSeparator hop.proto

/-! ## The fields of an element -/

variable (P) in
/-- A field of an element. -/
def forwardedPair (pair : Str) : Option (Str × Str) :=
  match indexOf pair '=' 0 with
  | some idx =>
      if 0 < idx then
        some (P.toLowerCase (trim (substring pair 0 idx)), unquote (trim (pair.drop (idx + 1))))
      else none
  | none => none

theorem forwardedPairs_eq (element : Str) :
    forwardedPairs P element =
      (split ';' element).flatMap fun pair => (forwardedPair P pair).toList :=
  List.filterMap_eq_flatMap_toList ..

theorem forwardedPairs_append (left right : Str) :
    forwardedPairs P (left ++ ';' :: right) = forwardedPairs P left ++ forwardedPairs P right := by
  rw [forwardedPairs_eq, forwardedPairs_eq, forwardedPairs_eq]
  exact flatMap_split_append _ rfl ';' left right

def field (name text : Str) : Str := name ++ '=' :: quoted text

theorem forwardedPairs_field {name text : Str} (hname : '=' ∉ name ∧ ';' ∉ name ∧ name ≠ [])
    (htext : NoSeparator text) :
    forwardedPairs P (field name text) = [(P.toLowerCase (trim name), escape text)] := by
  have hsplit : ';' ∉ field name text := by
    simp [field, hname, mem_quoted_iff (show isEscaped ';' = false from rfl), htext.2]
  have hdrop : (name ++ '=' :: quoted text).drop (name.length + 1) = quoted text := by
    rw [List.append_cons, List.drop_left' (by simp)]
  rw [forwardedPairs_eq, split_of_notMem hsplit]
  simp only [List.flatMap_cons, List.flatMap_nil, List.append_nil, forwardedPair, field,
    indexOf_append hname.1, substring_zero_append, hdrop, unquote_trim_quoted,
    List.length_pos_iff.mpr hname.2.2, if_true, Option.toList_some]

def optionalField (name text : Str) : Str := if text.isEmpty then [] else ';' :: field name text

theorem forwardedPairs_append_optionalField (left : Str) {name text : Str}
    (hname : '=' ∉ name ∧ ';' ∉ name ∧ name ≠ []) (htext : NoSeparator text) :
    forwardedPairs P (left ++ optionalField name text) =
      forwardedPairs P left ++
        if text.isEmpty then [] else [(P.toLowerCase (trim name), escape text)] := by
  rw [optionalField]
  split
  · rw [List.append_nil, List.append_nil]
  · rw [forwardedPairs_append, forwardedPairs_field hname htext]

theorem Hop.element_eq (hop : Hop) :
    hop.element = field "for".toList (sent hop.address) ++ optionalField "host".toList hop.host ++
      optionalField "proto".toList hop.proto := by
  rw [Hop.element, ForwardedHeader.element, node_eq]
  rfl

theorem noSeparator_sent {address : Str} (h : NoSeparator address) : NoSeparator (sent address) := by
  have htrim : NoSeparator (trim address) := by
    have hsub : ∀ c ∈ trim address, c ∈ address := fun c hc =>
      (List.dropWhile_sublist _).subset ((List.rdropWhile_prefix _ _).subset hc)
    exact ⟨fun hc => h.1 (hsub _ hc), fun hc => h.2 (hsub _ hc)⟩
  rw [sent]
  split
  · simpa [NoSeparator] using htrim
  · exact htrim

variable (laws : LowerCases P)

include laws in
/-- The fields of an element are read as they were written, escaped. -/
theorem forwardedPairs_element {hop : Hop} (hsep : hop.NoSeparators) {lead : Str}
    (hlead : lead = [] ∨ lead = [' ']) :
    forwardedPairs P (lead ++ hop.element) =
      ("for".toList, escape (sent hop.address)) ::
        ((if hop.host.isEmpty then [] else [("host".toList, escape hop.host)]) ++
          if hop.proto.isEmpty then [] else [("proto".toList, escape hop.proto)]) := by
  have hfirst : '=' ∉ lead ++ "for".toList ∧ ';' ∉ lead ++ "for".toList ∧
      lead ++ "for".toList ≠ [] ∧ trim (lead ++ "for".toList) = "for".toList := by
    rcases hlead with rfl | rfl <;> decide
  have hfor : P.toLowerCase "for".toList = "for".toList :=
    laws.name _ (forall_mem_of_all (by decide))
  have hhost : P.toLowerCase "host".toList = "host".toList :=
    laws.name _ (forall_mem_of_all (by decide))
  have hproto : P.toLowerCase "proto".toList = "proto".toList :=
    laws.name _ (forall_mem_of_all (by decide))
  have htrimHost : trim "host".toList = "host".toList := by decide
  have htrimProto : trim "proto".toList = "proto".toList := by decide
  have htext : lead ++ hop.element =
      field (lead ++ "for".toList) (sent hop.address) ++ optionalField "host".toList hop.host ++
        optionalField "proto".toList hop.proto := by
    simp [Hop.element_eq, field]
  rw [htext, forwardedPairs_append_optionalField _ (by decide) hsep.2.2,
    forwardedPairs_append_optionalField _ (by decide) hsep.2.1,
    forwardedPairs_field ⟨hfirst.1, hfirst.2.1, hfirst.2.2.1⟩ (noSeparator_sent hsep.1),
    hfirst.2.2.2, htrimHost, htrimProto, hfor, hhost, hproto, List.append_assoc]
  rfl

/-- A text that is left out when it is empty. -/
def known (text : Str) : Option Str := if text.isEmpty then none else some text

variable (P) in
/-- What is read of an element: nothing, if its address is lost. -/
def readHop (hop : Hop) : Option ForwardedElement :=
  if (readAddress P hop.address).isEmpty then none
  else some ⟨readAddress P hop.address, known (escape hop.host),
    (known (escape hop.proto)).map P.toLowerCase⟩

include laws in
theorem parseForwardedElement_element {hop : Hop} (hsep : hop.NoSeparators) {lead : Str}
    (hlead : lead = [] ∨ lead = [' ']) :
    parseForwardedElement P (lead ++ hop.element) = readHop P hop := by
  rw [parseForwardedElement, forwardedPairs_element laws hsep hlead, readHop, readAddress]
  by_cases hhost : hop.host = [] <;> by_cases hproto : hop.proto = [] <;>
    by_cases haddress : normalize P (escape (sent hop.address)) = [] <;>
    simp [collectFirst, List.findSome?, known, hhost, hproto, haddress, Option.filter]

theorem parseForwardedElements_append (left right : Str) :
    parseForwardedElements P [left ++ ',' :: right] =
      parseForwardedElements P [left] ++ parseForwardedElements P [right] := by
  simp only [parseForwardedElements, List.flatMap_cons, List.flatMap_nil, List.append_nil,
    List.filterMap_eq_flatMap_toList]
  exact flatMap_split_append _ rfl ',' left right

theorem Hop.notMem_element {hop : Hop} (hsep : hop.NoSeparators) : ',' ∉ hop.element := by
  have hcomma : isEscaped ',' = false := rfl
  have hquoted : ∀ text, NoSeparator text → ',' ∉ quoted text := fun text htext hmem =>
    htext.1 ((mem_quoted_iff hcomma).mp hmem)
  have hoptional : ∀ name text, ',' ∉ name → NoSeparator text → ',' ∉ optionalField name text := by
    intro name text hname htext
    rw [optionalField]
    split
    · exact List.not_mem_nil
    · simp [field, hname, hquoted text htext]
  rw [Hop.element_eq, List.mem_append, List.mem_append, not_or, not_or]
  refine ⟨⟨?_, hoptional _ _ (by decide) hsep.2.1⟩, hoptional _ _ (by decide) hsep.2.2⟩
  simp [field, hquoted _ (noSeparator_sent hsep.1)]

include laws in
theorem parseForwardedElements_element {hop : Hop} (hsep : hop.NoSeparators) {lead : Str}
    (hlead : lead = [] ∨ lead = [' ']) :
    parseForwardedElements P [lead ++ hop.element] = [hop].filterMap (readHop P) := by
  have hcomma : ',' ∉ lead ++ hop.element := by
    rw [List.mem_append, not_or]
    refine ⟨?_, hop.notMem_element hsep⟩
    rcases hlead with rfl | rfl <;> decide
  rw [parseForwardedElements, List.flatMap_singleton, split_of_notMem hcomma, List.filterMap_cons,
    List.filterMap_cons, parseForwardedElement_element laws hsep hlead]
  rfl

include laws in
/-- The header is read element by element. -/
theorem parseForwardedElements_mkString (first : Hop) (hops : List Hop)
    (hsep : ∀ hop ∈ first :: hops, hop.NoSeparators) {lead : Str}
    (hlead : lead = [] ∨ lead = [' ']) :
    parseForwardedElements P [lead ++ mkString ((first :: hops).map Hop.element)] =
      (first :: hops).filterMap (readHop P) := by
  induction hops generalizing first lead with
  | nil =>
      have hone : mkString ([first].map Hop.element) = first.element := List.intercalate_singleton
      rw [hone]
      exact parseForwardedElements_element laws (hsep first List.mem_cons_self) hlead
  | cons second hops ih =>
      have htext : lead ++ mkString ((first :: second :: hops).map Hop.element) =
          (lead ++ first.element) ++ ',' ::
            ([' '] ++ mkString ((second :: hops).map Hop.element)) := by
        simp [mkString, List.intercalate_cons_cons]
      have hfirst := parseForwardedElements_element laws (hsep first List.mem_cons_self) hlead
      have hrest := ih second (fun hop hhop => hsep hop (List.mem_cons_of_mem first hhop))
        (Or.inr rfl)
      rw [htext, parseForwardedElements_append, hfirst, hrest, ← List.filterMap_append]
      rfl

/-! ## The chain that is written -/

variable (P) in
/-- The addresses that are written: the chain, when it is trusted, and the peer. -/
def addresses (request : RequestHeader) (trusted : Bool) (header : ClientAddressHeader) :
    List Str :=
  (if trusted then incomingChain P request header else []) ++ [request.remoteAddress]

/-- The host and the protocol go on the first element. -/
def withOrigin (host proto : Str) : List Str → List Hop
  | [] => []
  | first :: rest => ⟨first, host, proto⟩ :: rest.map (⟨·, [], []⟩)

theorem value_eq (request : RequestHeader) (host proto : Str) (trusted : Bool)
    {header : ClientAddressHeader} (hheader : header.isForwarded = false) :
    value P request host proto trusted header =
      mkString ((withOrigin host proto (addresses P request trusted header)).map Hop.element) := by
  unfold value addresses
  cases trusted with
  | false => simp [withOrigin, mkString, Hop.element]
  | true =>
      simp only [Bool.not_true, Bool.false_eq_true, if_false, hheader, if_true]
      cases incomingChain P request header with
      | nil => simp [withOrigin, mkString, Hop.element]
      | cons client proxies => simp [withOrigin, Hop.element, Function.comp_def]

variable (P) in
/-- The addresses the next hop is to read. -/
def expectedAddresses (request : RequestHeader) (trusted : Bool) (header : ClientAddressHeader) :
    List Str :=
  (if trusted then parseChain P header (request.getAll header.name) else []) ++
    [normalize P request.remoteAddress]

def Hop.toElement (hop : Hop) : ForwardedElement := ⟨hop.address, known hop.host, known hop.proto⟩

variable (P) in
/-- The next hop reads the chain and the peer, with the host and the protocol on the first. -/
def ReadsBack (request : RequestHeader) (host proto : Str) (trusted : Bool)
    (header : ClientAddressHeader) : Prop :=
  parseForwardedElements P [value P request host proto trusted header] =
    (withOrigin host proto (expectedAddresses P request trusted header)).map Hop.toElement

/-- A text that is read as it was written. -/
def CleanText (text : Str) : Prop := NoSeparator text ∧ ∀ c ∈ text, isEscaped c = false

instance (text : Str) : Decidable (CleanText text) :=
  have := List.decidableBAll (fun c => isEscaped c = false) text
  instDecidableAnd

variable (P) in
/-- What the texts have to be, besides that no address has a separator. -/
structure Clean (request : RequestHeader) (host proto : Str) (trusted : Bool)
    (header : ClientAddressHeader) : Prop where
  addresses : ∀ address ∈ addresses P request trusted header, CleanAddress P address
  peer : normalize P request.remoteAddress ≠ []
  /-- The element of the client is not lost, unless it says nothing else. -/
  client : ∀ address ∈ (ForwardedHeader.addresses P request trusted header).head?,
    normalize P address = [] → host = [] ∧ proto = []
  host : CleanText host
  proto : CleanText proto ∧ P.toLowerCase proto = proto

/-! ## Comparing what is read with what was written -/

/-- The addresses that are not empty. -/
def present (addresses : List Str) : List Str := addresses.filter fun address => !address.isEmpty

theorem present_cons (address : Str) (rest : List Str) :
    present (address :: rest) = if address = [] then present rest else address :: present rest := by
  rw [present, List.filter_cons, ← present]
  cases address <;> rfl

theorem present_append (first second : List Str) :
    present (first ++ second) = present first ++ present second := List.filter_append ..

theorem mem_present {address : Str} {addresses : List Str} :
    address ∈ present addresses ↔ address ∈ addresses ∧ address ≠ [] := by
  simp [present]

theorem length_present_le {read write : Str → Str} (hlost : ∀ a, write a = [] → read a = [])
    (texts : List Str) :
    (present (texts.map read)).length ≤ (present (texts.map write)).length := by
  induction texts with
  | nil => exact Nat.le_refl 0
  | cons text texts ih =>
      rw [List.map_cons, List.map_cons, present_cons, present_cons]
      by_cases hwrite : write text = []
      · rwa [if_pos hwrite, if_pos (hlost text hwrite)]
      · rw [if_neg hwrite]
        split
        · exact Nat.le_succ_of_le ih
        · exact Nat.succ_le_succ ih

/-- Where nothing is read for what is not there, the lists of what is read and of what was written
agree only if every text is read as it was written: a lost one leaves the first list too short. -/
theorem present_map_eq_iff {read write : Str → Str} (hlost : ∀ a, write a = [] → read a = [])
    (texts : List Str) :
    present (texts.map read) = present (texts.map write) ↔ ∀ text ∈ texts, read text = write text := by
  refine ⟨fun h => ?_, fun h => by rw [List.map_congr_left h]⟩
  induction texts with
  | nil => exact nofun
  | cons text texts ih =>
      rw [List.map_cons, List.map_cons, present_cons, present_cons] at h
      rw [List.forall_mem_cons]
      by_cases hwrite : write text = []
      · rw [if_pos hwrite, if_pos (hlost text hwrite)] at h
        exact ⟨by rw [hwrite, hlost text hwrite], ih h⟩
      · rw [if_neg hwrite] at h
        split at h
        · have hshort := length_present_le hlost texts
          rw [h, List.length_cons] at hshort
          omega
        · rw [List.cons.injEq] at h
          exact ⟨h.1, ih h.2⟩

theorem parseChain_eq_present (request : RequestHeader) {header : ClientAddressHeader}
    (hheader : header.isForwarded = false) :
    parseChain P header (request.getAll header.name) =
      present ((incomingChain P request header).map (normalize P)) := by
  rw [parseChain, incomingChain, hheader, if_neg Bool.false_ne_true, if_neg Bool.false_ne_true]
  generalize (request.getAll header.name).flatMap (split ',') = pieces
  induction pieces with
  | nil => rfl
  | cons piece pieces ih =>
      rw [List.map_cons, List.map_cons, ← present, present_cons, present, ih, List.filter_cons]
      by_cases hpiece : trim piece = []
      · have hnone : normalize P piece = [] := by rw [← normalize_trim, hpiece, normalize_nil]
        simp [hpiece, hnone]
      · have hkept : (!(trim piece).isEmpty) = true := by simpa using hpiece
        rw [if_pos hkept, List.map_cons, normalize_trim, present_cons]

theorem expectedAddresses_eq (request : RequestHeader) (trusted : Bool)
    {header : ClientAddressHeader} (hheader : header.isForwarded = false)
    (hpeer : normalize P request.remoteAddress ≠ []) :
    expectedAddresses P request trusted header =
      present ((addresses P request trusted header).map (normalize P)) := by
  rw [expectedAddresses, addresses, List.map_append, present_append, List.map_singleton,
    present_cons, if_neg hpeer, parseChain_eq_present request hheader]
  cases trusted <;> rfl

/-- An element that says nothing but its address. -/
def plainElement (address : Str) : ForwardedElement := ⟨address, none, none⟩

theorem filterMap_plain (texts : List Str) :
    (texts.map fun text => (⟨text, [], []⟩ : Hop)).filterMap (readHop P) =
      (present (texts.map (readAddress P))).map plainElement := by
  induction texts with
  | nil => rfl
  | cons text texts ih =>
      rw [List.map_cons, List.map_cons, present_cons, List.filterMap_cons, readHop, ih]
      by_cases htext : readAddress P text = []
      · simp [htext]
      · simp [htext, plainElement, known]

theorem filterMap_withOrigin (host proto first : Str) (rest : List Str) :
    (withOrigin host proto (first :: rest)).filterMap (readHop P) =
      (if readAddress P first = [] then []
        else [⟨readAddress P first, known (escape host),
          (known (escape proto)).map P.toLowerCase⟩]) ++
        (present (rest.map (readAddress P))).map plainElement := by
  rw [withOrigin, List.filterMap_cons, filterMap_plain, readHop]
  by_cases hfirst : readAddress P first = [] <;> simp [hfirst]

theorem map_toElement_withOrigin (host proto first : Str) (rest : List Str) :
    (withOrigin host proto (first :: rest)).map Hop.toElement =
      ⟨first, known host, known proto⟩ :: rest.map plainElement := by
  rw [withOrigin, List.map_cons, List.map_map]
  rfl

theorem map_address_filterMap (host proto : Str) (texts : List Str) :
    ((withOrigin host proto texts).filterMap (readHop P)).map (·.address) =
      present (texts.map (readAddress P)) := by
  cases texts with
  | nil => rfl
  | cons first rest =>
      rw [filterMap_withOrigin, List.map_cons, present_cons, List.map_append, List.map_map]
      by_cases hfirst : readAddress P first = [] <;>
        simp [hfirst, Function.comp_def, plainElement]

theorem map_address_toElement (host proto : Str) (texts : List Str) :
    ((withOrigin host proto texts).map Hop.toElement).map (·.address) = texts := by
  cases texts with
  | nil => rfl
  | cons first rest => simp [map_toElement_withOrigin, Function.comp_def, plainElement]

include laws in
/-- The protocol is read back when nothing of it is escaped and it is in lower case. -/
theorem toLowerCase_escape_eq_iff (proto : Str) :
    P.toLowerCase (escape proto) = proto ↔
      (∀ c ∈ proto, isEscaped c = false) ∧ P.toLowerCase proto = proto := by
  constructor
  · intro h
    have hcount := laws.count (escape proto) '\\' (by decide)
    rw [h, count_backslash_escape] at hcount
    have hplain : ∀ c ∈ proto, isEscaped c = false := by
      have hzero : proto.countP isEscaped = 0 := by omega
      simpa using List.countP_eq_zero.mp hzero
    rw [escape_eq_self_iff.mpr hplain] at h
    exact ⟨hplain, h⟩
  · intro h
    rw [escape_eq_self_iff.mpr h.1, h.2]

theorem known_eq_iff {first second : Str} : known first = known second ↔ first = second := by
  unfold known
  cases first <;> cases second <;> simp

include laws in
theorem map_known_eq_iff (proto : Str) :
    (known (escape proto)).map P.toLowerCase = known proto ↔
      (∀ c ∈ proto, isEscaped c = false) ∧ P.toLowerCase proto = proto := by
  by_cases hproto : proto = []
  · subst hproto
    exact iff_of_true rfl ⟨nofun, laws.name [] nofun⟩
  · rw [← toLowerCase_escape_eq_iff laws]
    simp [known, hproto]

/-- The host and the protocol are read back when nothing of them is escaped and the element they
are on is not lost. -/
theorem origin_iff {host proto first : Str} {rest : List Str}
    (hread : ∀ text ∈ first :: rest, readAddress P text = normalize P text)
    (hsome : ∃ text ∈ first :: rest, normalize P text ≠ []) :
    (withOrigin host proto (first :: rest)).filterMap (readHop P) =
        (withOrigin host proto (present ((first :: rest).map (normalize P)))).map Hop.toElement ↔
      (normalize P first = [] → host = [] ∧ proto = []) ∧
        known (escape host) = known host ∧
          (known (escape proto)).map P.toLowerCase = known proto := by
  have hrest : rest.map (readAddress P) = rest.map (normalize P) :=
    List.map_congr_left fun text htext => hread text (List.mem_cons_of_mem first htext)
  rw [filterMap_withOrigin, hrest, hread first List.mem_cons_self, List.map_cons, present_cons]
  by_cases hfirst : normalize P first = []
  · rw [if_pos hfirst, if_pos hfirst, List.nil_append]
    cases hpresent : present (rest.map (normalize P)) with
    | nil =>
        obtain ⟨text, htext, hnormalize⟩ := hsome
        have hne : text ≠ first := by
          rintro rfl
          exact hnormalize hfirst
        have hmem := List.mem_of_ne_of_mem hne htext
        have hkept : normalize P text ∈ present (rest.map (normalize P)) :=
          mem_present.mpr ⟨List.mem_map_of_mem hmem, hnormalize⟩
        rw [hpresent] at hkept
        cases hkept
    | cons address others =>
        rw [map_toElement_withOrigin, List.map_cons, List.cons.injEq]
        constructor
        · intro h
          have hempty : host = [] ∧ proto = [] := by simpa [plainElement, known] using h.1
          obtain ⟨rfl, rfl⟩ := hempty
          exact ⟨fun _ => ⟨rfl, rfl⟩, rfl, rfl⟩
        · intro h
          obtain ⟨rfl, rfl⟩ := h.1 hfirst
          exact ⟨rfl, rfl⟩
  · rw [if_neg hfirst, if_neg hfirst, map_toElement_withOrigin, List.singleton_append,
      List.cons.injEq]
    simp [hfirst]

include laws in
/-- Without separators the elements agree exactly when the texts are clean. -/
theorem filterMap_eq_iff (request : RequestHeader) {host proto : Str} (trusted : Bool)
    {header : ClientAddressHeader} (hheader : header.isForwarded = false)
    (hhost : NoSeparator host) (hproto : NoSeparator proto) :
    (withOrigin host proto (addresses P request trusted header)).filterMap (readHop P) =
        (withOrigin host proto (expectedAddresses P request trusted header)).map Hop.toElement ↔
      Clean P request host proto trusted header := by
  have hmem : request.remoteAddress ∈ addresses P request trusted header :=
    List.mem_append_right _ List.mem_cons_self
  obtain ⟨first, rest, htexts⟩ := List.exists_cons_of_ne_nil (List.ne_nil_of_mem hmem)
  constructor
  · intro h
    have haddresses := congrArg (List.map (·.address)) h
    rw [map_address_filterMap, map_address_toElement] at haddresses
    have hpeer : normalize P request.remoteAddress ≠ [] := by
      have hlast : normalize P request.remoteAddress ∈
          expectedAddresses P request trusted header :=
        List.mem_append_right _ List.mem_cons_self
      rw [← haddresses] at hlast
      exact (mem_present.mp hlast).2
    rw [expectedAddresses_eq request trusted hheader hpeer] at haddresses h
    have hread := (present_map_eq_iff (fun _ => readAddress_eq_nil laws) _).mp haddresses
    rw [htexts] at h hread hmem
    have horigin := (origin_iff hread ⟨_, hmem, hpeer⟩).mp h
    rw [known_eq_iff, escape_eq_self_iff, map_known_eq_iff laws] at horigin
    refine ⟨fun address haddress => ?_, hpeer, fun address haddress => ?_, ⟨hhost, horigin.2.1⟩,
      ⟨hproto, horigin.2.2.1⟩, horigin.2.2.2⟩
    · rw [htexts] at haddress
      exact (readAddress_eq_iff laws address).mp (hread address haddress)
    · rw [htexts] at haddress
      cases haddress
      exact horigin.1
  · intro h
    have hread : ∀ text ∈ first :: rest, readAddress P text = normalize P text := fun text ht =>
      (readAddress_eq_iff laws text).mpr (h.addresses text (htexts ▸ ht))
    rw [expectedAddresses_eq request trusted hheader h.peer, htexts]
    rw [htexts] at hmem
    refine (origin_iff hread ⟨_, hmem, h.peer⟩).mpr ⟨h.client first ?_, ?_, ?_⟩
    · rw [htexts]
      rfl
    · exact known_eq_iff.mpr (escape_eq_self_iff.mpr h.host.2)
    · exact (map_known_eq_iff laws proto).mpr ⟨h.proto.1.2, h.proto.2⟩

/-! ## Separators in the host and the protocol -/

theorem mem_of_mem_unquote {c : Char} {text : Str} (h : c ∈ unquote (trim text)) : c ∈ text := by
  have htrim : ∀ {c}, c ∈ trim text → c ∈ text := fun hc =>
    (List.dropWhile_sublist _).subset ((List.rdropWhile_prefix _ _).subset hc)
  rw [unquote] at h
  split at h
  · exact htrim (List.mem_of_mem_take (List.mem_of_mem_drop h))
  · exact htrim h

/-- The value of a field is in one piece of the header. -/
theorem noSeparator_of_mem_forwardedPairs {values : List Str} {element : Str}
    (helement : element ∈ values.flatMap (split ',')) {pair : Str × Str}
    (h : pair ∈ forwardedPairs P element) : NoSeparator pair.2 := by
  obtain ⟨value, -, helement⟩ := List.mem_flatMap.mp helement
  rw [forwardedPairs_eq, List.mem_flatMap] at h
  obtain ⟨piece, hpiece, hpair⟩ := h
  rw [Option.mem_toList, forwardedPair] at hpair
  have hsub : ∀ c ∈ pair.2, c ∈ piece := by
    split at hpair
    · split at hpair
      · cases hpair
        exact fun c hc => List.mem_of_mem_drop (mem_of_mem_unquote hc)
      · cases hpair
    · cases hpair
  exact ⟨fun hc => (mem_split helement).1 ((mem_split hpiece).2 _ (hsub _ hc)),
    fun hc => (mem_split hpiece).1 (hsub _ hc)⟩

theorem mem_of_collectFirst {name text : Str} {keeps : Str → Bool} {pairs : List (Str × Str)}
    (h : collectFirst name keeps pairs = some text) : ∃ pair ∈ pairs, pair.2 = text := by
  obtain ⟨pair, hpair, hkept⟩ := List.exists_of_findSome?_eq_some h
  split at hkept
  · exact ⟨pair, hpair, Option.some.inj hkept⟩
  · cases hkept

include laws in
/-- No element that is read has a host or a protocol with a separator. -/
theorem noSeparator_of_mem_parse {values : List Str} {read : ForwardedElement}
    (h : read ∈ parseForwardedElements P values) :
    (∀ host ∈ read.host, NoSeparator host) ∧ ∀ proto ∈ read.proto, NoSeparator proto := by
  obtain ⟨element, helement, hread⟩ := List.mem_filterMap.mp h
  obtain ⟨address, -, rfl⟩ := Option.map_eq_some_iff.mp hread
  refine ⟨fun host hhost => ?_, fun proto hproto => ?_⟩
  · have hcollect : collectFirst "host".toList (fun host => !host.isEmpty)
        (forwardedPairs P element) = some host := hhost
    obtain ⟨pair, hpair, rfl⟩ := mem_of_collectFirst hcollect
    exact noSeparator_of_mem_forwardedPairs helement hpair
  · obtain ⟨text, htext, rfl⟩ := Option.map_eq_some_iff.mp hproto
    obtain ⟨pair, hpair, rfl⟩ := mem_of_collectFirst htext
    have hpairs := noSeparator_of_mem_forwardedPairs helement hpair
    refine ⟨fun hc => hpairs.1 ?_, fun hc => hpairs.2 ?_⟩
    · rw [← List.count_pos_iff, ← laws.count _ ',' (by decide)]
      exact List.count_pos_iff.mpr hc
    · rw [← List.count_pos_iff, ← laws.count _ ';' (by decide)]
      exact List.count_pos_iff.mpr hc

theorem noSeparator_known {text : Str} (h : ∀ kept ∈ known text, NoSeparator kept) :
    NoSeparator text := by
  cases text with
  | nil => exact ⟨List.not_mem_nil, List.not_mem_nil⟩
  | cons c rest => exact h (c :: rest) rfl

variable (P) in
/-- No address of the chain has a separator. -/
def Separated (request : RequestHeader) (trusted : Bool) (header : ClientAddressHeader) : Prop :=
  ∀ address ∈ addresses P request trusted header, NoSeparator address

include laws in
theorem parse_value {request : RequestHeader} {host proto : Str} {trusted : Bool}
    {header : ClientAddressHeader} (hheader : header.isForwarded = false)
    (hseparated : Separated P request trusted header) (hhost : NoSeparator host)
    (hproto : NoSeparator proto) :
    parseForwardedElements P [value P request host proto trusted header] =
      (withOrigin host proto (addresses P request trusted header)).filterMap (readHop P) := by
  have hnil : NoSeparator [] := ⟨List.not_mem_nil, List.not_mem_nil⟩
  have hmem : request.remoteAddress ∈ addresses P request trusted header :=
    List.mem_append_right _ List.mem_cons_self
  obtain ⟨first, rest, htexts⟩ := List.exists_cons_of_ne_nil (List.ne_nil_of_mem hmem)
  rw [Separated, htexts, List.forall_mem_cons] at hseparated
  rw [value_eq request host proto trusted hheader, htexts, withOrigin]
  apply @parseForwardedElements_mkString _ laws _ _ ?_ [] (Or.inl rfl)
  rw [List.forall_mem_cons, List.forall_mem_map]
  exact ⟨⟨hseparated.1, hhost, hproto⟩, fun text htext => ⟨hseparated.2 text htext, hnil, hnil⟩⟩

include laws in
/-- A host or a protocol with a separator is never read back. -/
theorem noSeparator_of_readsBack {request : RequestHeader} {host proto : Str} {trusted : Bool}
    {header : ClientAddressHeader} (h : ReadsBack P request host proto trusted header) :
    NoSeparator host ∧ NoSeparator proto := by
  have hmem : normalize P request.remoteAddress ∈ expectedAddresses P request trusted header :=
    List.mem_append_right _ List.mem_cons_self
  obtain ⟨first, rest, hexpected⟩ := List.exists_cons_of_ne_nil (List.ne_nil_of_mem hmem)
  rw [ReadsBack, hexpected, map_toElement_withOrigin] at h
  have hread := noSeparator_of_mem_parse laws (h ▸ List.mem_cons_self)
  exact ⟨noSeparator_known hread.1, noSeparator_known hread.2⟩

include laws in
/-- The next hop reads the chain back when no address has a separator and the texts are clean, and
of the chains whose addresses have no separator it reads back no other. -/
theorem readsBack_iff_clean (request : RequestHeader) (host proto : Str) (trusted : Bool)
    {header : ClientAddressHeader} (hheader : header.isForwarded = false) :
    (Separated P request trusted header ∧ Clean P request host proto trusted header →
        ReadsBack P request host proto trusted header) ∧
      (Separated P request trusted header ∧ ReadsBack P request host proto trusted header →
        Clean P request host proto trusted header) := by
  constructor
  · rintro ⟨hseparated, hclean⟩
    rw [ReadsBack, parse_value laws hheader hseparated hclean.host.1 hclean.proto.1.1]
    exact (filterMap_eq_iff laws request trusted hheader hclean.host.1 hclean.proto.1.1).mpr hclean
  · rintro ⟨hseparated, hreads⟩
    have hsep := noSeparator_of_readsBack laws hreads
    rw [ReadsBack, parse_value laws hheader hseparated hsep.1 hsep.2] at hreads
    exact (filterMap_eq_iff laws request trusted hheader hsep.1 hsep.2).mp hreads

/-! ## A platform that lower cases letter by letter -/

theorem count_map_toLower {c : Char} (hc : c ∈ [',', ';', '\\', '"']) (text : Str) :
    (text.map Char.toLower).count c = text.count c := by
  have hlower : ∀ d : Char, d.toLower = c ↔ d = c := by
    intro d
    have hsmall : ∀ c ∈ [',', ';', '\\', '"'], c.toNat < 97 ∧ c.toLower = c :=
      forall_mem_of_all (by decide)
    exact ⟨eq_of_toLower_eq (hsmall c hc).1, by rintro rfl; exact (hsmall d hc).2⟩
  induction text with
  | nil => rfl
  | cons d text ih =>
      rw [List.map_cons, List.count_cons, List.count_cons, ih]
      by_cases hd : d = c
      · simp [hd, (hlower c).mpr rfl]
      · simp [hd, hlower]

theorem lowerCases_dottedPlatform : LowerCases dottedPlatform where
  name text h := by
    refine (List.map_congr_left fun c hc => ?_).trans (List.map_id text)
    have hsmall : 97 ≤ c.toNat := (h c hc).1
    apply Char.toNat_inj.mp
    rw [toNat_toLower, if_neg fun hupper => by omega]
    rfl
  startsWith_mapped _ := rfl
  count text c hc := count_map_toLower hc text

/-- A request whose chain, host and protocol are read back. -/
def plainRequest : RequestHeader := RequestHeader.forwardedFor "10.0.0.1" "6.6.6.6, 2001:db8::1"

theorem clean_plainRequest :
    Clean dottedPlatform plainRequest "oto.tools:8080".toList "https".toList true .default where
  addresses := by decide +kernel
  peer := by decide +kernel
  client := by decide +kernel
  host := by decide +kernel
  proto := by decide +kernel

theorem separated_plainRequest : Separated dottedPlatform plainRequest true .default := by
  unfold Separated NoSeparator
  decide +kernel

theorem readsBack_iff_clean_example :
    ReadsBack dottedPlatform plainRequest "oto.tools:8080".toList "https".toList true .default :=
  (readsBack_iff_clean lowerCases_dottedPlatform plainRequest "oto.tools:8080".toList
    "https".toList true rfl).1 ⟨separated_plainRequest, clean_plainRequest⟩

/-- A host forges a hop: `6.6.6.6` is neither in the chain nor the peer. -/
theorem exists_forged_hop :
    ∃ (P : AddressPlatform) (request : RequestHeader) (host proto : Str)
      (header : ClientAddressHeader), LowerCases P ∧ header.isForwarded = false ∧
        expectedAddresses P request true header = ["1.1.1.1".toList, "10.0.0.1".toList] ∧
        (parseForwardedElements P [value P request host proto true header]).map (·.address) =
          ["1.1.1.1".toList, "6.6.6.6".toList, "10.0.0.1".toList] ∧
        ¬ ReadsBack P request host proto true header := by
  refine ⟨dottedPlatform, RequestHeader.forwardedFor "10.0.0.1" "1.1.1.1",
    "a,for=6.6.6.6,b".toList, "https".toList, .default, lowerCases_dottedPlatform, rfl, ?_, ?_, ?_⟩
  · decide +kernel
  · decide +kernel
  · unfold ReadsBack
    decide +kernel

end ForwardedHeader

end Otoroshi
