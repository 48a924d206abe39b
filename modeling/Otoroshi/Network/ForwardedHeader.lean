/-
# The Forwarded header

`ForwardedHeader.value` writes the chain of proxies as elements of a `Forwarded` header, with the
host and the protocol of the request on the element of the client. The next hop reads it with
`IpAddresses.parseForwardedElements`.

The writer puts texts between quotes and escapes what is in them. The reader cuts at commas and
semicolons before it looks for quotes, and it keeps the backslashes. So it reads every text that has
no separator as the text that was written, escaped, and a text with a separator in pieces.
-/

import Otoroshi.Foundation.QuotedStrings
import Otoroshi.Network.ClientAddress

namespace Otoroshi

open QuotedString

namespace ForwardedHeader

def tokenSymbols : Str := "!#$%&'*+-.^_`|~".toList

def isTokenChar (c : Char) : Bool :=
  ('a' ≤ c && c ≤ 'z') || ('A' ≤ c && c ≤ 'Z') || ('0' ≤ c && c ≤ '9') || tokenSymbols.contains c

/-- A text that is not a token is sent between quotes. -/
def quoted (value : Str) : Str :=
  let isToken := !value.isEmpty && value.all isTokenChar
  if isToken then value else '"' :: escape value ++ ['"']

/-- An address with several colons that is not in brackets yet. -/
def needsBrackets (trimmed : Str) : Bool :=
  !startsWith trimmed "[".toList && indexOf trimmed ':' 0 != lastIndexWhere (· == ':') trimmed

def node (address : Str) : Str :=
  let trimmed := trim address
  if needsBrackets trimmed then quoted ('[' :: trimmed ++ [']']) else quoted trimmed

/-- The host and the protocol are left out when they are not known. -/
def element (forNode host proto : Str) : Str :=
  "for=".toList ++ node forNode ++
    (if host.isEmpty then [] else ";host=".toList ++ quoted host) ++
    (if proto.isEmpty then [] else ";proto=".toList ++ quoted proto)

variable (P : AddressPlatform)

def incomingChain (request : RequestHeader) (header : ClientAddressHeader) : List Str :=
  if header.isForwarded then
    (IpAddresses.parseForwardedElements P (request.getAll "Forwarded".toList)).map (·.address)
  else
    (((request.getAll header.name).flatMap (split ',')).map trim).filter fun entry => !entry.isEmpty

/-- `mkString(", ")`. -/
def mkString (elements : List Str) : Str := List.intercalate ", ".toList elements

/-- `ForwardedHeader.value`. -/
def value (request : RequestHeader) (host proto : Str) (trusted : Bool)
    (header : ClientAddressHeader) : Str :=
  let peer := request.remoteAddress
  if !trusted then element peer host proto
  else if header.isForwarded then
    let forwarded := ((request.getAll "Forwarded".toList).map trim).filter fun value =>
      !value.isEmpty
    if forwarded.isEmpty then element peer host proto
    else mkString (forwarded ++ [element peer [] []])
  else
    match incomingChain P request header with
    | [] => element peer host proto
    | client :: proxies =>
        mkString ((element client host proto :: proxies.map fun proxy => element proxy [] []) ++
          [element peer [] []])

/-! ## Quoted texts -/

theorem startsWith_singleton {c : Char} {text : Str} :
    startsWith text [c] = true ↔ text.head? = some c := by
  rw [startsWith, List.isPrefixOf_iff_prefix, List.singleton_prefix_iff_head?_eq_some]

theorem isEscaped_of_isTokenChar {c : Char} (h : isTokenChar c = true) : isEscaped c = false := by
  rw [isEscaped, Bool.or_eq_false_iff]
  constructor <;> apply beq_eq_false_iff_ne.mpr <;> rintro rfl <;> revert h <;> decide

theorem isTrimmed_of_isTokenChar {c : Char} (h : isTokenChar c = true) : isTrimmed c = false := by
  have hsymbols : ∀ d ∈ tokenSymbols, ¬ d ≤ ' ' := forall_mem_of_all (by decide)
  refine decide_eq_false fun hle => ?_
  unfold isTokenChar at h
  simp only [Bool.or_eq_true, Bool.and_eq_true, decide_eq_true_eq] at h
  rcases h with ((h | h) | h) | h
  · exact absurd (Char.le_trans h.1 hle) (by decide)
  · exact absurd (Char.le_trans h.1 hle) (by decide)
  · exact absurd (Char.le_trans h.1 hle) (by decide)
  · exact hsymbols c (List.contains_iff_mem.mp h) hle

/-- A separator is never part of a token. -/
theorem mem_quoted_iff {c : Char} (hescaped : isEscaped c = false) {text : Str} :
    c ∈ quoted text ↔ c ∈ text := by
  have hslash : c ≠ '\\' := by rintro rfl; cases hescaped
  have hquote : c ≠ '"' := by rintro rfl; cases hescaped
  simp only [quoted]
  split
  · rfl
  · simp [mem_escape_iff hslash, hquote]

theorem unquote_quotes (text : Str) : IpAddresses.unquote ('"' :: text ++ ['"']) = text := by
  have hlength : ('"' :: text ++ ['"']).length - 1 = ('"' :: text).length := by simp
  have hends : (1 < ('"' :: text ++ ['"']).length &&
      startsWith ('"' :: text ++ ['"']) "\"".toList &&
      endsWith ('"' :: text ++ ['"']) "\"".toList) = true := by
    have hsuffix : endsWith ('"' :: text ++ ['"']) "\"".toList = true :=
      List.isSuffixOf_iff_suffix.mpr (List.suffix_append ..)
    rw [hsuffix]
    simp [startsWith]
  rw [IpAddresses.unquote, if_pos hends, hlength, substring, List.take_left]
  rfl

/-- A quoted text is read back with its backslashes. -/
theorem unquote_trim_quoted (text : Str) :
    IpAddresses.unquote (trim (quoted text)) = escape text := by
  simp only [quoted]
  split
  · next htoken =>
      rw [Bool.and_eq_true, List.all_eq_true] at htoken
      have htrim : trim text = text := trim_eq_self
        (fun c hc => isTrimmed_of_isTokenChar (htoken.2 c (List.mem_of_mem_head? hc)))
        fun c hc => isTrimmed_of_isTokenChar (htoken.2 c (List.mem_of_mem_getLast? hc))
      have hplain : ∀ c ∈ text, isEscaped c = false := fun c hc =>
        isEscaped_of_isTokenChar (htoken.2 c hc)
      have hstart : startsWith text "\"".toList = false := by
        refine Bool.eq_false_iff.mpr fun hstart => ?_
        have hhead : text.head? = some '"' := startsWith_singleton.mp hstart
        cases hplain '"' (List.mem_of_mem_head? hhead)
      rw [htrim, escape_eq_self_iff.mpr hplain, IpAddresses.unquote, hstart, Bool.and_false,
        Bool.false_and, if_neg Bool.false_ne_true]
  · have hends : ∀ c ∈ ('"' :: escape text ++ ['"']).getLast?, isTrimmed c = false := by
      intro c hc
      rw [List.getLast?_concat] at hc
      cases hc
      rfl
    rw [trim_eq_self (by simp [isTrimmed]) hends, unquote_quotes]

/-! ## Addresses, escaped -/

open IpAddresses

/-- What the lower casing of the platform does with the texts of this header. -/
structure LowerCases : Prop where
  name : ∀ text : Str, (∀ c ∈ text, 'a' ≤ c ∧ c ≤ 'z') → P.toLowerCase text = text
  startsWith_mapped : ∀ text, startsWith (P.toLowerCase text) ipv4MappedPrefix =
    startsWith (text.map Char.toLower) ipv4MappedPrefix
  /-- Only letters change. -/
  count : ∀ text c, c ∈ [',', ';', '\\', '"'] →
    (P.toLowerCase text).count c = text.count c

variable {P}

theorem count_eq_one_iff {c : Char} {before after : Str} (hbefore : c ∉ before) :
    (before ++ c :: after).count c = 1 ↔ c ∉ after := by
  rw [List.count_append, List.count_cons_self, List.count_eq_zero.mpr hbefore, Nat.zero_add,
    Nat.add_eq_right, List.count_eq_zero]

/-- Several colons: the first one is not the last one. -/
theorem count_of_needsBrackets {text : Str} (h : needsBrackets text = true) :
    startsWith text "[".toList = false ∧ text.count ':' ≠ 1 := by
  rw [needsBrackets, Bool.and_eq_true, Bool.not_eq_true', bne_iff_ne] at h
  refine ⟨h.1, fun hcount => h.2 ?_⟩
  have hmem : ':' ∈ text := List.count_pos_iff.mp (by omega)
  obtain ⟨after, hbefore, htext⟩ := exists_append_of_mem hmem
  rw [htext] at hcount ⊢
  have hafter := (count_eq_one_iff hbefore).mp hcount
  rw [indexOf_append hbefore, lastIndexOf_append _ hafter]

theorem withoutBrackets_cons (content : Str) :
    withoutBrackets ('[' :: content) = content.takeWhile (· != ']') := by
  have hstart : startsWith ('[' :: content) "[".toList = true := by simp [startsWith]
  rw [withoutBrackets, if_pos hstart]
  by_cases hmem : ']' ∈ content
  · obtain ⟨after, hbefore, hcontent⟩ := exists_append_of_mem hmem
    generalize content.takeWhile (· != ']') = before at hbefore hcontent ⊢
    subst hcontent
    have hindex := @indexOf_append ']' ('[' :: before) (by simp [hbefore]) after
    rw [List.cons_append] at hindex
    rw [hindex]
    simp [substring]
  · rw [indexOf_of_notMem (by simp [hmem]), takeWhile_of_notMem hmem]
    rfl

theorem withoutBrackets_of_not {text : Str} (h : startsWith text "[".toList = false) :
    withoutBrackets text =
      if text.count ':' = 1 ∧ text.head? ≠ some ':' then text.takeWhile (· != ':') else text := by
  rw [withoutBrackets, h, if_neg Bool.false_ne_true]
  by_cases hmem : ':' ∈ text
  · obtain ⟨after, hbefore, htext⟩ := exists_append_of_mem hmem
    generalize text.takeWhile (· != ':') = before at hbefore htext ⊢
    subst htext
    have hpos : 0 < before.length ↔ (before ++ ':' :: after).head? ≠ some ':' := by
      cases before with
      | nil => simp
      | cons c before =>
          have hc : c ≠ ':' := fun heq => hbefore (heq ▸ List.mem_cons_self)
          simp [hc]
    simp only [indexOf_append hbefore, count_eq_one_iff hbefore, ← hpos, Bool.and_eq_true,
      decide_eq_true_eq, indexOf_append_after, substring_zero_append, and_comm]
  · rw [indexOf_of_notMem hmem, if_neg]
    rw [List.count_eq_zero.mpr hmem]
    simp

theorem withoutZone_eq (text : Str) :
    withoutZone text =
      if text.head? = some '%' then text else text.takeWhile (· != '%') := by
  rw [withoutZone]
  by_cases hmem : '%' ∈ text
  · obtain ⟨after, hbefore, htext⟩ := exists_append_of_mem hmem
    generalize text.takeWhile (· != '%') = before at hbefore htext ⊢
    subst htext
    rw [indexOf_append hbefore]
    cases before with
    | nil => simp
    | cons c before =>
        have hc : c ≠ '%' := fun heq => hbefore (heq ▸ List.mem_cons_self)
        have hhead : ¬ ((c :: before) ++ '%' :: after).head? = some '%' := by simp [hc]
        have hpos : 0 < (c :: before).length := Nat.succ_pos _
        simp only [if_neg hhead, if_pos hpos, substring_zero_append]
  · rw [indexOf_of_notMem hmem, takeWhile_of_notMem hmem, ite_self]

theorem startsWith_escape (text : Str) :
    startsWith (escape text) "[".toList = startsWith text "[".toList := by
  rw [Bool.eq_iff_iff]
  exact startsWith_singleton.trans ((head?_escape rfl text).trans startsWith_singleton.symm)

theorem withoutBrackets_escape (text : Str) :
    withoutBrackets (escape text) = escape (withoutBrackets text) := by
  by_cases hstart : startsWith text "[".toList = true
  · obtain ⟨content, rfl⟩ := List.isPrefixOf_iff_prefix.mp hstart
    rw [show "[".toList ++ content = '[' :: content from rfl, escape_cons_of_plain rfl,
      withoutBrackets_cons, withoutBrackets_cons, takeWhile_escape rfl]
  · rw [Bool.not_eq_true] at hstart
    have hcount : (escape text).count ':' = text.count ':' := count_escape (by decide) text
    have hhead : (escape text).head? = some ':' ↔ text.head? = some ':' := head?_escape rfl text
    simp only [withoutBrackets_of_not hstart, withoutBrackets_of_not
      ((startsWith_escape text).trans hstart), hcount, ne_eq, hhead, apply_ite escape,
      takeWhile_escape (show isEscaped ':' = false from rfl)]

theorem withoutZone_escape (text : Str) :
    withoutZone (escape text) = escape (withoutZone text) := by
  have hhead : (escape text).head? = some '%' ↔ text.head? = some '%' := head?_escape rfl text
  simp only [withoutZone_eq, hhead, apply_ite escape,
    takeWhile_escape (show isEscaped '%' = false from rfl)]

variable (P) in
/-- An ipv4 address without the beginning that maps it into ipv6. -/
def unmapped (bare : Str) : Str :=
  if startsWith (P.toLowerCase bare) ipv4MappedPrefix && bare.count '.' == 3 then
    bare.drop ipv4MappedPrefix.length
  else bare

theorem normalize_eq (address : Str) :
    normalize P address = unmapped P (withoutZone (withoutBrackets (trim address))) := rfl

@[simp]
theorem normalize_trim (address : Str) : normalize P (trim address) = normalize P address := by
  rw [normalize_eq, normalize_eq, trim_trim]

theorem isEscaped_toLower (c : Char) : isEscaped c.toLower = isEscaped c := by
  by_cases hc : isEscaped c = true
  · rw [isEscaped, Bool.or_eq_true, beq_iff_eq, beq_iff_eq] at hc
    rcases hc with rfl | rfl <;> rfl
  · rw [Bool.not_eq_true] at hc
    rw [hc, isEscaped, Bool.or_eq_false_iff]
    rw [isEscaped, Bool.or_eq_false_iff, beq_eq_false_iff_ne, beq_eq_false_iff_ne] at hc
    exact ⟨beq_eq_false_iff_ne.mpr fun h => hc.1 (eq_of_toLower_eq (by decide) h),
      beq_eq_false_iff_ne.mpr fun h => hc.2 (eq_of_toLower_eq (by decide) h)⟩

variable (laws : LowerCases P)

include laws in
theorem unmapped_eq (bare : Str) :
    unmapped P bare =
      if ipv4MappedPrefix <+: bare.map Char.toLower ∧ bare.count '.' = 3 then
        bare.drop ipv4MappedPrefix.length
      else bare := by
  rw [unmapped, laws.startsWith_mapped, startsWith]
  simp only [Bool.and_eq_true, List.isPrefixOf_iff_prefix, beq_iff_eq]

include laws in
theorem unmapped_escape (bare : Str) :
    unmapped P (escape bare) = escape (unmapped P bare) := by
  have hmapped : ∀ c ∈ ipv4MappedPrefix, isEscaped c = false := forall_mem_of_all (by decide)
  have hcount : (escape bare).count '.' = bare.count '.' := count_escape (by decide) bare
  simp only [unmapped_eq laws, prefix_map_escape_iff isEscaped_toLower hmapped, hcount]
  split
  · next h => exact drop_escape isEscaped_toLower hmapped h.1
  · rfl

include laws in
/-- The address of an escaped text is the address of the text, escaped. -/
theorem normalize_escape {text : Str} (h : trim text = text) :
    normalize P (escape text) = escape (normalize P text) := by
  rw [normalize_eq, normalize_eq, trim_escape h, h, withoutBrackets_escape, withoutZone_escape,
    unmapped_escape laws]

include laws in
theorem mem_unmapped {bare : Str} (h : ']' ∈ bare) : ']' ∈ unmapped P bare := by
  rw [unmapped_eq laws]
  split
  · next hmapped =>
      rw [← List.take_append_drop ipv4MappedPrefix.length bare, List.mem_append] at h
      refine h.resolve_left fun hfirst => ?_
      have hbegins : (bare.take ipv4MappedPrefix.length).map Char.toLower = ipv4MappedPrefix := by
        rw [List.map_take]
        exact (List.prefix_iff_eq_take.mp hmapped.1).symm
      have hmem := List.mem_map_of_mem (f := Char.toLower) hfirst
      rw [hbegins] at hmem
      revert hmem
      decide
  · exact h

/-! ## The address in an element -/

/-- The text of a node between its quotes. -/
def sent (address : Str) : Str :=
  if needsBrackets (trim address) then '[' :: trim address ++ [']'] else trim address

theorem node_eq (address : Str) : node address = quoted (sent address) :=
  (apply_ite quoted _ _ _).symm

theorem trim_sent (address : Str) : trim (sent address) = sent address := by
  rw [sent]
  split
  · apply trim_eq_self
    · intro c hc
      cases hc
      rfl
    · intro c hc
      rw [List.getLast?_concat] at hc
      cases hc
      rfl
  · exact trim_trim address

variable (P) in
/-- The address that the reader takes from a node. -/
def readAddress (address : Str) : Str := normalize P (escape (sent address))

variable (P) in
/-- The address of a node has no quote and no backslash, and no bracket if brackets are put
around the node. -/
def CleanAddress (address : Str) : Prop :=
  (∀ c ∈ normalize P address, isEscaped c = false) ∧
    (needsBrackets (trim address) = true → ']' ∉ normalize P address)

instance (address : Str) : Decidable (CleanAddress P address) :=
  have := List.decidableBAll (fun c => isEscaped c = false) (normalize P address)
  instDecidableAnd

theorem normalize_of_needsBrackets {address : Str} (h : needsBrackets (trim address) = true) :
    normalize P address = unmapped P (withoutZone (trim address)) := by
  have hcount := count_of_needsBrackets h
  rw [normalize_eq, withoutBrackets_of_not hcount.1, if_neg fun hone => hcount.2 hone.1]

theorem normalize_brackets {text : Str} (h : trim ('[' :: text ++ [']']) = '[' :: text ++ [']']) :
    normalize P ('[' :: text ++ [']']) =
      unmapped P (withoutZone (text.takeWhile (· != ']'))) := by
  have hcontent : (text ++ [']']).takeWhile (· != ']') = text.takeWhile (· != ']') := by
    by_cases hmem : ']' ∈ text
    · obtain ⟨after, hbefore, htext⟩ := exists_append_of_mem hmem
      generalize text.takeWhile (· != ']') = before at hbefore htext ⊢
      have hall : ∀ c ∈ before, (c != ']') = true := fun c hc =>
        bne_iff_ne.mpr fun heq => hbefore (heq ▸ hc)
      rw [htext, List.append_assoc, List.takeWhile_append_of_pos hall]
      simp
    · have hall : ∀ c ∈ text, (c != ']') = true := fun c hc =>
        bne_iff_ne.mpr fun heq => hmem (heq ▸ hc)
      rw [takeWhile_of_notMem hmem, List.takeWhile_append_of_pos hall]
      simp
  rw [normalize_eq, h, List.cons_append, withoutBrackets_cons, hcontent]

theorem takeWhile_takeWhile_of_notMem {c d : Char} {text : Str}
    (h : d ∉ text.takeWhile (· != c)) :
    (text.takeWhile (· != d)).takeWhile (· != c) = text.takeWhile (· != c) := by
  induction text with
  | nil => rfl
  | cons e text ih =>
      by_cases hc : e = c
      · by_cases hd : e = d <;> simp [hc ▸ hd, hc]
      · rw [List.takeWhile_cons_of_pos (by simp [hc]), List.mem_cons, not_or] at h
        have hd : e ≠ d := fun heq => h.1 heq.symm
        simp [hc, hd, ih h.2]

/-- What stands behind a bracket does not matter if the zone cuts it off anyway. -/
theorem withoutZone_takeWhile {text : Str} (h : ']' ∉ withoutZone text) :
    withoutZone (text.takeWhile (· != ']')) = withoutZone text := by
  rw [withoutZone_eq] at h
  split at h
  · rw [takeWhile_of_notMem h]
  · next hhead =>
      have hhead' : ¬ (text.takeWhile (· != ']')).head? = some '%' := by
        rw [← List.singleton_prefix_iff_head?_eq_some] at hhead ⊢
        exact fun hstart => hhead (hstart.trans (List.takeWhile_prefix _))
      rw [withoutZone_eq, withoutZone_eq, if_neg hhead, if_neg hhead',
        takeWhile_takeWhile_of_notMem h]

theorem notMem_unmapped_withoutZone {text : Str} (h : ']' ∉ text) :
    ']' ∉ unmapped P (withoutZone text) := by
  have hzone : ']' ∉ withoutZone text := by
    rw [withoutZone_eq]
    split
    · exact h
    · exact fun hmem => h ((List.takeWhile_sublist _).subset hmem)
  rw [unmapped]
  split
  · exact fun hmem => hzone (List.mem_of_mem_drop hmem)
  · exact hzone

include laws in
/-- The reader finds the address exactly when it is clean. -/
theorem readAddress_eq_iff (address : Str) :
    readAddress P address = normalize P address ↔ CleanAddress P address := by
  have hsent := trim_sent address
  rw [readAddress, normalize_escape laws hsent, CleanAddress]
  by_cases hbrackets : needsBrackets (trim address) = true
  · have hbracketed : sent address = '[' :: trim address ++ [']'] := if_pos hbrackets
    have hinner : ']' ∉ (trim address).takeWhile (· != ']') := fun hmem =>
      bne_iff_ne.mp (@List.mem_takeWhile_imp _ (· != ']') _ _ hmem) rfl
    have hsame (h : ']' ∉ normalize P address) :
        normalize P (sent address) = normalize P address := by
      rw [normalize_of_needsBrackets hbrackets] at h
      rw [hbracketed, normalize_brackets (hbracketed ▸ hsent),
        withoutZone_takeWhile fun hmem => h (mem_unmapped laws hmem),
        normalize_of_needsBrackets hbrackets]
    constructor
    · intro h
      have hnot : ']' ∉ normalize P address := by
        rw [← h, mem_escape_iff (by decide), hbracketed, normalize_brackets (hbracketed ▸ hsent)]
        exact notMem_unmapped_withoutZone hinner
      rw [hsame hnot, escape_eq_self_iff] at h
      exact ⟨h, fun _ => hnot⟩
    · intro h
      rw [hsame (h.2 hbrackets), escape_eq_self_iff]
      exact h.1
  · have hplain : sent address = trim address := if_neg hbrackets
    rw [hplain, normalize_trim, escape_eq_self_iff]
    exact ⟨fun h => ⟨h, fun h' => absurd h' hbrackets⟩, fun h => h.1⟩

include laws in
/-- Of an address that is empty, nothing is read. -/
theorem readAddress_eq_nil {address : Str} (h : normalize P address = []) :
    readAddress P address = [] := by
  have hclean : CleanAddress P address := by
    rw [CleanAddress, h]
    exact ⟨nofun, fun _ => List.not_mem_nil⟩
  rw [(readAddress_eq_iff laws address).mpr hclean, h]

end ForwardedHeader

end Otoroshi
