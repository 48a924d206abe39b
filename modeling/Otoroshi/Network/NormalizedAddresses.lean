/-
# Normalizing twice

An address is read out of a text in four passes: blanks, brackets or a port, a zone, and the
beginning that maps an address of version 4. Each pass only takes something away, so a text comes
out as it went in when no pass finds anything (`normalize_eq_self_iff`).

A second normalization changes what the first one leaves when a pass uncovers something for a pass
before it, or for itself. `HostText` and `ZoneText` describe the parts of a text without the
program, and `normalized_once_iff` says in their terms for which texts it does not matter how
often they are normalized.
-/

import Otoroshi.Network.ForwardedHeader

namespace Otoroshi

namespace IpAddresses

open ForwardedHeader QuotedString

/-! ## The parts of a text -/

/-- A port at the end: there is one colon, and something before it. -/
def HasPort (text : Str) : Prop := text.count ':' = 1 ∧ text.head? ≠ some ':'

instance (text : Str) : Decidable (HasPort text) := inferInstanceAs (Decidable (_ ∧ _))

/-- A zone at the end: there is a percent sign, and something before the first one. -/
def HasZone (text : Str) : Prop := '%' ∈ text ∧ text.head? ≠ some '%'

instance (text : Str) : Decidable (HasZone text) := inferInstanceAs (Decidable (_ ∧ _))

/-- The host in a text: what is between brackets, what is before the port, or all of it. -/
inductive HostText : Str → Str → Prop
  | bracketed {host : Str} (rest : Str) (h : ']' ∉ host) :
      HostText ('[' :: (host ++ ']' :: rest)) host
  | unclosed {host : Str} (h : ']' ∉ host) : HostText ('[' :: host) host
  | withPort {host port : Str} (hne : host ≠ []) (hhead : host.head? ≠ some '[')
      (hhost : ':' ∉ host) (hport : ':' ∉ port) : HostText (host ++ ':' :: port) host
  | bare {host : Str} (hhead : host.head? ≠ some '[') (hport : ¬ HasPort host) : HostText host host

/-- The address in a host: what is before the zone, or all of it. -/
inductive ZoneText : Str → Str → Prop
  | zoned {address : Str} (zone : Str) (hne : address ≠ []) (h : '%' ∉ address) :
      ZoneText (address ++ '%' :: zone) address
  | bare {address : Str} (h : ¬ HasZone address) : ZoneText address address

variable (P : AddressPlatform)

/-- An address of version 4 that is written as one of version 6. -/
def Mapped (address : Str) : Prop :=
  (startsWith (P.toLowerCase address) ipv4MappedPrefix && address.count '.' == 3) = true

/-- Nothing can be taken away. -/
structure Settled (address : Str) : Prop where
  head : ∀ c ∈ address.head?, isTrimmed c = false
  last : ∀ c ∈ address.getLast?, isTrimmed c = false
  bracket : address.head? ≠ some '['
  port : ¬ HasPort address
  zone : ¬ HasZone address
  mapped : ¬ Mapped P address

/-- Nothing can be taken away from the address in the text, or from what is mapped in it. -/
def Settles (text : Str) : Prop :=
  ∀ host address, HostText (trim text) host → ZoneText host address →
    (¬ Mapped P address → Settled P address) ∧
      (Mapped P address → Settled P (address.drop ipv4MappedPrefix.length))

variable {P}

/-! ## One pass -/

theorem startsWith_bracket_eq_false {text : Str} :
    startsWith text "[".toList = false ↔ text.head? ≠ some '[' := by
  rw [← Bool.not_eq_true, not_iff_not]
  exact startsWith_singleton

theorem takeWhile_append_of_notMem {c : Char} {before : Str} (h : c ∉ before) (after : Str) :
    (before ++ c :: after).takeWhile (· != c) = before := by
  have hall : ∀ d ∈ before, (d != c) = true := fun d hd =>
    bne_iff_ne.mpr fun heq => h (heq ▸ hd)
  rw [List.takeWhile_append_of_pos hall, List.takeWhile_cons_of_neg (by simp), List.append_nil]

theorem withoutBrackets_of_hasPort {text : Str} (hhead : text.head? ≠ some '[')
    (hport : HasPort text) : withoutBrackets text = text.takeWhile (· != ':') := by
  rw [withoutBrackets_of_not (startsWith_bracket_eq_false.mpr hhead)]
  exact if_pos hport

theorem withoutBrackets_of_bare {text : Str} (hhead : text.head? ≠ some '[')
    (hport : ¬ HasPort text) : withoutBrackets text = text := by
  rw [withoutBrackets_of_not (startsWith_bracket_eq_false.mpr hhead)]
  exact if_neg hport

theorem hasPort_append {host port : Str} (hne : host ≠ []) (hhost : ':' ∉ host) :
    HasPort (host ++ ':' :: port) ↔ ':' ∉ port := by
  obtain ⟨c, rest, rfl⟩ := List.exists_cons_of_ne_nil hne
  have hc : c ≠ ':' := fun heq => hhost (heq ▸ List.mem_cons_self)
  rw [HasPort, count_eq_one_iff hhost, and_iff_left]
  simpa using hc

/-- The program finds the host. -/
theorem hostText_iff {text host : Str} : HostText text host ↔ withoutBrackets text = host := by
  constructor
  · intro h
    cases h with
    | bracketed rest h => rw [withoutBrackets_cons, takeWhile_append_of_notMem h]
    | unclosed h => rw [withoutBrackets_cons, takeWhile_of_notMem h]
    | withPort hne hhead hhost hport =>
        rw [withoutBrackets_of_hasPort _ ((hasPort_append hne hhost).mpr hport),
          takeWhile_append_of_notMem hhost]
        obtain ⟨c, rest, rfl⟩ := List.exists_cons_of_ne_nil hne
        exact hhead
    | bare hhead hport => exact withoutBrackets_of_bare hhead hport
  · rintro rfl
    by_cases hbracket : text.head? = some '['
    · obtain ⟨content, rfl⟩ := List.head?_eq_some_iff.mp hbracket
      rw [withoutBrackets_cons]
      by_cases hclosed : ']' ∈ content
      · obtain ⟨rest, hnot, hcontent⟩ := exists_append_of_mem hclosed
        have hhost := HostText.bracketed rest hnot
        rwa [← hcontent] at hhost
      · rw [takeWhile_of_notMem hclosed]
        exact .unclosed hclosed
    · by_cases hport : HasPort text
      · have hcolon : ':' ∈ text := List.count_pos_iff.mp (by rw [hport.1]; exact Nat.one_pos)
        obtain ⟨port, hnot, htext⟩ := exists_append_of_mem hcolon
        rw [withoutBrackets_of_hasPort hbracket hport]
        generalize text.takeWhile (· != ':') = host at hnot htext
        subst htext
        have hne : host ≠ [] := by
          rintro rfl
          exact hport.2 rfl
        refine .withPort hne ?_ hnot ((hasPort_append hne hnot).mp hport)
        obtain ⟨c, rest, rfl⟩ := List.exists_cons_of_ne_nil hne
        exact hbracket
      · rw [withoutBrackets_of_bare hbracket hport]
        exact .bare hbracket hport

/-- The program finds the address. -/
theorem zoneText_iff {host address : Str} : ZoneText host address ↔ withoutZone host = address := by
  constructor
  · intro h
    cases h with
    | zoned zone hne h =>
        obtain ⟨c, rest, rfl⟩ := List.exists_cons_of_ne_nil hne
        have hc : c ≠ '%' := fun heq => h (heq ▸ List.mem_cons_self)
        rw [withoutZone_eq, if_neg (by simpa using hc), takeWhile_append_of_notMem h]
    | bare h =>
        rw [withoutZone_eq]
        split
        · rfl
        · rename_i hhead
          exact takeWhile_of_notMem fun hmem => h ⟨hmem, hhead⟩
  · rintro rfl
    rw [withoutZone_eq]
    split
    · rename_i hhead
      exact .bare fun hzone => hzone.2 hhead
    · rename_i hhead
      by_cases hmem : '%' ∈ host
      · obtain ⟨zone, hnot, hhost⟩ := exists_append_of_mem hmem
        generalize host.takeWhile (· != '%') = address at hnot hhost
        subst hhost
        refine .zoned zone ?_ hnot
        rintro rfl
        exact hhead rfl
      · rw [takeWhile_of_notMem hmem]
        exact .bare fun hzone => hmem hzone.1

/-! ## Passes that find nothing -/

theorem trim_eq_self_iff {text : Str} :
    trim text = text ↔ (∀ c ∈ text.head?, isTrimmed c = false) ∧
      ∀ c ∈ text.getLast?, isTrimmed c = false := by
  constructor
  · intro h
    exact ⟨h ▸ head?_trim text, h ▸ getLast?_trim text⟩
  · rintro ⟨hhead, hlast⟩
    exact trim_eq_self hhead hlast

/-- Every pass leaves a part of the text. -/
theorem HostText.sublist {text host : Str} (h : HostText text host) : host.Sublist text := by
  cases h with
  | bracketed rest h => exact ((List.sublist_append_left ..).cons _)
  | unclosed h => exact (List.Sublist.refl _).cons _
  | withPort hne hhead hhost hport => exact List.sublist_append_left ..
  | bare hhead hport => exact List.Sublist.refl _

theorem ZoneText.sublist {host address : Str} (h : ZoneText host address) :
    address.Sublist host := by
  cases h with
  | zoned zone hne h => exact List.sublist_append_left ..
  | bare h => exact List.Sublist.refl _

theorem trim_sublist (text : Str) : (trim text).Sublist text :=
  (List.rdropWhile_prefix ..).sublist.trans (List.dropWhile_sublist ..)

theorem unmapped_sublist (address : Str) : (unmapped P address).Sublist address := by
  rw [unmapped]
  split
  · exact List.drop_sublist ..
  · exact List.Sublist.refl _

/-- A host that is as long as the text is all of it. -/
theorem HostText.of_length_eq {text host : Str} (h : HostText text host)
    (hlength : text.length ≤ host.length) : text.head? ≠ some '[' ∧ ¬ HasPort text := by
  cases h with
  | bracketed rest h =>
      simp only [List.length_cons, List.length_append] at hlength
      omega
  | unclosed h =>
      rw [List.length_cons] at hlength
      omega
  | withPort hne hhead hhost hport =>
      simp only [List.length_cons, List.length_append] at hlength
      omega
  | bare hhead hport => exact ⟨hhead, hport⟩

theorem ZoneText.of_length_eq {host address : Str} (h : ZoneText host address)
    (hlength : host.length ≤ address.length) : ¬ HasZone host := by
  cases h with
  | zoned zone hne h =>
      simp only [List.length_cons, List.length_append] at hlength
      omega
  | bare h => exact h

theorem withoutBrackets_eq_self_iff {text : Str} :
    withoutBrackets text = text ↔ text.head? ≠ some '[' ∧ ¬ HasPort text := by
  constructor
  · intro h
    exact (hostText_iff.mpr h).of_length_eq (Nat.le_refl _)
  · rintro ⟨hhead, hport⟩
    exact withoutBrackets_of_bare hhead hport

theorem withoutZone_eq_self_iff {text : Str} : withoutZone text = text ↔ ¬ HasZone text := by
  constructor
  · intro h
    exact (zoneText_iff.mpr h).of_length_eq (Nat.le_refl _)
  · intro h
    exact zoneText_iff.mp (.bare h)

theorem unmapped_of_mapped {address : Str} (h : Mapped P address) :
    unmapped P address = address.drop ipv4MappedPrefix.length := if_pos h

theorem unmapped_of_not {address : Str} (h : ¬ Mapped P address) :
    unmapped P address = address := if_neg h

theorem length_le_of_mapped {address : Str} (h : Mapped P address) : 3 ≤ address.length := by
  rw [Mapped, Bool.and_eq_true, beq_iff_eq] at h
  exact h.2 ▸ List.count_le_length

theorem unmapped_eq_self_iff {text : Str} : unmapped P text = text ↔ ¬ Mapped P text := by
  refine ⟨fun h hmapped => ?_, unmapped_of_not⟩
  have hlength := congrArg List.length h
  have hpos := length_le_of_mapped hmapped
  have hprefix : ipv4MappedPrefix.length = 7 := rfl
  rw [unmapped_of_mapped hmapped, List.length_drop, hprefix] at hlength
  omega

/-- A text comes out as it went in exactly when there is nothing to be taken away from it. -/
theorem normalize_eq_self_iff {text : Str} : normalize P text = text ↔ Settled P text := by
  rw [normalize_eq]
  constructor
  · intro h
    have hblanks := trim_sublist text
    have hhost := (hostText_iff.mpr (Eq.refl (withoutBrackets (trim text)))).sublist
    have hzone := (zoneText_iff.mpr (Eq.refl (withoutZone (withoutBrackets (trim text))))).sublist
    have hmapped := @unmapped_sublist P (withoutZone (withoutBrackets (trim text)))
    rw [h] at hmapped
    -- each pass leaves a part of what it is given, and in the end all of the text is left
    have htrim : trim text = text := hblanks.antisymm ((hmapped.trans hzone).trans hhost)
    rw [htrim] at h hhost hzone hmapped
    have hbrackets : withoutBrackets text = text := hhost.antisymm (hmapped.trans hzone)
    rw [hbrackets] at h hzone hmapped
    have haddress : withoutZone text = text := hzone.antisymm hmapped
    rw [haddress] at h
    obtain ⟨hhead, hlast⟩ := trim_eq_self_iff.mp htrim
    obtain ⟨hbracket, hport⟩ := withoutBrackets_eq_self_iff.mp hbrackets
    exact ⟨hhead, hlast, hbracket, hport, withoutZone_eq_self_iff.mp haddress,
      unmapped_eq_self_iff.mp h⟩
  · intro h
    rw [trim_eq_self_iff.mpr ⟨h.head, h.last⟩,
      withoutBrackets_eq_self_iff.mpr ⟨h.bracket, h.port⟩, withoutZone_eq_self_iff.mpr h.zone,
      unmapped_of_not h.mapped]

/-! ## Two normalizations -/

theorem settled_normalize_iff {text : Str} : Settled P (normalize P text) ↔ Settles P text := by
  rw [normalize_eq]
  constructor
  · rintro h host address hhost haddress
    rw [hostText_iff] at hhost
    rw [zoneText_iff] at haddress
    subst hhost haddress
    refine ⟨fun hmapped => ?_, fun hmapped => ?_⟩
    · rwa [unmapped_of_not hmapped] at h
    · rwa [unmapped_of_mapped hmapped] at h
  · intro h
    obtain ⟨hbare, hrest⟩ := h _ _ (hostText_iff.mpr rfl) (zoneText_iff.mpr rfl)
    by_cases hmapped : Mapped P (withoutZone (withoutBrackets (trim text)))
    · rw [unmapped_of_mapped hmapped]
      exact hrest hmapped
    · rw [unmapped_of_not hmapped]
      exact hbare hmapped

/-- Nobody can tell how often the text was normalized: the second time nothing changes, and every
matcher gives the same answer for it as for the text. -/
def NormalizedOnce (P : AddressPlatform) (text : Str) : Prop :=
  normalize P (normalize P text) = normalize P text ∧
    ∀ matcher : IpAddressMatcher P,
      matcher.matchesAddress text = matcher.matchesAddress (normalize P text)

theorem normalized_once_iff (text : Str) : NormalizedOnce P text ↔ Settles P text := by
  rw [← settled_normalize_iff, ← normalize_eq_self_iff, NormalizedOnce, and_iff_left_iff_imp]
  intro h matcher
  rw [IpAddressMatcher.matchesAddress, IpAddressMatcher.matchesAddress, h]

/-- An address and its port in brackets: the brackets are taken away the first time, and the port
the second time. A range that has the address answers differently. -/
theorem not_normalizedOnce_of_port_in_brackets :
    ¬ NormalizedOnce dottedPlatform "[10.0.0.1:80]".toList ∧
      RequestHeader.privateRange.matchesAddress "[10.0.0.1:80]".toList = false ∧
      RequestHeader.privateRange.matchesAddress
        (normalize dottedPlatform "[10.0.0.1:80]".toList) = true := by
  have honce : normalize dottedPlatform "[10.0.0.1:80]".toList = "10.0.0.1:80".toList := by
    decide +kernel
  have htwice : normalize dottedPlatform "10.0.0.1:80".toList = "10.0.0.1".toList := by
    decide +kernel
  refine ⟨?_, by decide +kernel, by decide +kernel⟩
  rintro ⟨hsame, -⟩
  rw [honce, htwice] at hsame
  exact absurd hsame (by decide)

end IpAddresses

end Otoroshi
