/-
# Targets there and back

The targets of a route are turned into targets of the load balancing, which keep host and port in
one text, and turned back from them when a configuration is imported. The text is split at its
colons: the last piece is the port, and the pieces before it are put together without their colons.

So a host name without a colon comes back (`fromTarget_toTarget`), and no other host name does
(`roundTrips_iff`), such as an address of version 6.
-/

import Otoroshi.Foundation.Segments
import Otoroshi.Foundation.Stateful
import Otoroshi.Gateway.Targets

namespace Otoroshi

/-- A number is written with digits and a sign. -/
theorem notMem_longText {c : Char} (hsign : c ≠ '-') (hdigit : c.isDigit = false) (n : Int) :
    c ∉ longText n := by
  have hdigits : ∀ m, c ∉ Nat.toDigits 10 m := by
    intro m hmem
    rw [Nat.isDigit_of_mem_toDigits (by decide) (by decide) hmem] at hdigit
    cases hdigit
  cases n with
  | ofNat m =>
      rw [Int.ofNat_eq_natCast, longText_ofNat]
      exact hdigits m
  | negSucc m =>
      rw [longText_negSucc, List.mem_cons]
      exact not_or.mpr ⟨hsign, hdigits (m + 1)⟩

theorem longText_ne_nil (n : Int) : longText n ≠ [] := by
  cases n with
  | ofNat m =>
      rw [Int.ofNat_eq_natCast, longText_ofNat]
      exact Nat.toDigits_ne_nil
  | negSucc m =>
      rw [longText_negSucc]
      exact List.cons_ne_nil _ _

theorem mem_of_mem_rdropWhile {α : Type} {p : α → Bool} {item : α} {items : List α}
    (h : item ∈ items.rdropWhile p) : item ∈ items :=
  (List.rdropWhile_prefix p items).subset h

/-- No piece of a split has the separator in it. -/
theorem notMem_of_mem_split {separator : Char} {s piece : Str} (h : piece ∈ split separator s) :
    separator ∉ piece := by
  rw [split] at h
  split at h
  · exact (mem_splitOn (mem_of_mem_rdropWhile h)).1
  · rename_i hnot
    rwa [List.mem_singleton.mp h]

/-- A text with one separator is split in two when something follows it. -/
theorem split_append_cons {separator : Char} {before after : Str} (hbefore : separator ∉ before)
    (hafter : separator ∉ after) (hne : after ≠ []) :
    split separator (before ++ separator :: after) = [before, after] := by
  have hlast : after.isEmpty = false := List.isEmpty_eq_false_iff.mpr hne
  rw [split, if_pos (List.mem_append_right _ List.mem_cons_self),
    List.splitOn_append_cons_self, List.splitOn_eq_singleton hbefore,
    List.splitOn_eq_singleton hafter, List.singleton_append]
  exact List.rdropWhile_concat_neg _ [before] after (by rw [hlast]; exact Bool.false_ne_true)

namespace NgTarget

variable {Predicate : Type}

/-- The scheme says whether there is tls. -/
theorem scheme_toTarget (t : NgTarget Predicate) :
    decide (t.toTarget.scheme.map Char.toLower = "https".toList) = t.tls := by
  have hschemes : ∀ tls : Bool, decide ((if tls then "https" else "http").toList.map Char.toLower =
      "https".toList) = tls := by decide
  exact hschemes t.tls

section Hosts

variable {digit : Char → Option Nat} {t : NgTarget Predicate}

/-- The port is left out when the scheme gives it. -/
theorem defaultPortString_cases (t : NgTarget Predicate) :
    (t.defaultPortString = [] ∧ t.port = if t.tls then 443 else 80) ∨
      t.defaultPortString = ':' :: longText t.port := by
  unfold defaultPortString
  split
  · rename_i hdefault
    left
    rcases hdefault with ⟨htls, hport⟩ | ⟨htls, hport⟩ <;> simp [htls, hport]
  · exact .inr rfl

/-- Host and port come back from a host name without a colon. -/
theorem theHost_thePort_toTarget (hdigit : ReadsDigits digit) (hport : longToInt t.port = t.port)
    (hname : ':' ∉ t.hostname) :
    t.toTarget.theHost = .ok t.hostname ∧ t.toTarget.thePort digit = .ok t.port := by
  have hscheme := scheme_toTarget t
  rcases defaultPortString_cases t with ⟨hstring, hdefault⟩ | hstring
  · have hhost : t.toTarget.host = t.hostname := by
      rw [toTarget, hstring, List.append_nil]
    refine ⟨by rw [Target.theHost, hhost, if_neg hname], ?_⟩
    have hnone : t.toTarget.port = none := rfl
    rw [Target.thePort, hnone, hhost, hdefault]
    dsimp only
    rw [if_neg hname]
    cases htls : t.tls with
    | true =>
        rw [htls, decide_eq_true_eq] at hscheme
        rw [if_pos hscheme, if_pos rfl]
    | false =>
        rw [htls, decide_eq_false_iff_not] at hscheme
        rw [if_neg hscheme, if_neg Bool.false_ne_true]
  · have hhost : t.toTarget.host = t.hostname ++ ':' :: longText t.port := by
      rw [toTarget, hstring]
    have hcolon : ':' ∈ t.hostname ++ ':' :: longText t.port :=
      List.mem_append_right _ List.mem_cons_self
    have hsplit := split_append_cons hname
      (notMem_longText (c := ':') (by decide) (by decide) t.port) (longText_ne_nil t.port)
    have hlong : isLong t.port = true := by
      have hlow := Int.le_bmod (x := t.port) (m := 2 ^ 32) (by decide)
      have hhigh := Int.bmod_lt (x := t.port) (m := 2 ^ 32) (by decide)
      rw [longToInt] at hport
      rw [hport] at hlow hhigh
      rw [isLong, Bool.and_eq_true, decide_eq_true_eq, decide_eq_true_eq]
      omega
    have hnone : t.toTarget.port = none := rfl
    constructor
    · rw [Target.theHost, hhost, if_pos hcolon, hsplit]
      simp
    · rw [Target.thePort, hnone, hhost]
      dsimp only
      rw [if_pos hcolon, hsplit]
      simp [parseLong_longText hdigit hlong, Option.filter, hport]

/-- A target with such a host name comes back as it was. -/
theorem fromTarget_toTarget (hdigit : ReadsDigits digit) (hport : longToInt t.port = t.port)
    (hname : ':' ∉ t.hostname) : fromTarget digit t.toTarget = .ok t := by
  obtain ⟨hhost, hthePort⟩ := theHost_thePort_toTarget hdigit hport hname
  rw [fromTarget, hhost, ok_bind, hthePort, ok_bind, scheme_toTarget t]
  rfl

/-- What is read of a host has no colon. -/
theorem notMem_of_theHost {target : Target Predicate} {host : Str}
    (h : target.theHost = .ok host) : ':' ∉ host := by
  rw [Target.theHost] at h
  split at h
  · split at h
    · cases h
    · cases h
      rw [List.mem_flatten]
      rintro ⟨piece, hpiece, hcolon⟩
      exact notMem_of_mem_split (List.dropLast_subset _ hpiece) hcolon
  · rename_i hnot
    cases h
    exact hnot

end Hosts

/-! ## The fields that a round trip keeps -/

/-- There and back, a target has the same host name, port, tls flag, ip address and weight. -/
def RoundTrips (digit : Char → Option Nat) (t : NgTarget Predicate) : Prop :=
  ∃ back, fromTarget digit t.toTarget = .ok back ∧ back.hostname = t.hostname ∧
    back.port = t.port ∧ back.tls = t.tls ∧ back.ipAddress = t.ipAddress ∧ back.weight = t.weight

/-- The host name decides it. -/
theorem roundTrips_iff {digit : Char → Option Nat} (hdigit : ReadsDigits digit)
    {t : NgTarget Predicate} (hport : longToInt t.port = t.port) :
    RoundTrips digit t ↔ ':' ∉ t.hostname := by
  constructor
  · rintro ⟨back, hback, hname, -⟩
    obtain ⟨host, hhost, hrest⟩ := bind_eq_ok_iff.mp hback
    obtain ⟨port, -, hreturn⟩ := bind_eq_ok_iff.mp hrest
    have hsame : host = back.hostname := congrArg NgTarget.hostname (Except.ok.inj hreturn)
    rw [← hname, ← hsame]
    exact notMem_of_theHost hhost
  · intro hname
    exact ⟨t, fromTarget_toTarget hdigit hport hname, rfl, rfl, rfl, rfl, rfl⟩

/-- A target at an address of version 6, on the default port. -/
def loopback : NgTarget Unit where
  id := "loopback".toList
  hostname := "[::1]".toList
  port := 443
  tls := true
  predicate := ()

/-- The last piece of the address is not a port. -/
theorem not_roundTrips_loopback : ¬ RoundTrips asciiDigit loopback := by
  have hthrows : fromTarget asciiDigit loopback.toTarget = .error .numberFormat := by decide
  rintro ⟨back, hback, -⟩
  rw [hthrows] at hback
  cases hback

/-- A host name on a port of its own. -/
theorem roundTrips_of_port :
    RoundTrips asciiDigit ({ loopback with hostname := "api.internal".toList, port := 8443 }) :=
  (roundTrips_iff readsDigits_asciiDigit rfl).mpr (by decide)

end NgTarget

end Otoroshi
