/-
# Text as code units

A string of the platform is a sequence of sixteen bit code units, and a character outside the
basic plane takes two of them, a high and a low surrogate. Reading from the left, a high
surrogate with a low one behind it is one code point and every other unit is one by itself.

The units of the code points read are the text they were read from, and reading is
compositional wherever what follows does not start with a low surrogate.
-/

import Otoroshi.Foundation.Text

namespace Otoroshi

/-- A string, code unit by code unit. -/
abbrev Utf16 := List UInt16

/-- The unit of a character of the basic plane. -/
def codeUnit (c : Char) : UInt16 := c.toNat.toUInt16

def isHighSurrogate (u : UInt16) : Bool := 0xD800 ≤ u && u < 0xDC00

def isLowSurrogate (u : UInt16) : Bool := 0xDC00 ≤ u && u < 0xE000

/-- The units of a text. -/
def utf16 (text : Str) : Utf16 :=
  text.flatMap fun c =>
    if c.toNat < 0x10000 then [codeUnit c]
    else [((c.toNat - 0x10000) / 0x400 + 0xD800).toUInt16,
      ((c.toNat - 0x10000) % 0x400 + 0xDC00).toUInt16]

/-- What `codePointAt` reads: one unit, or a pair of surrogates. -/
inductive CodePoint
  | single (u : UInt16)
  | pair (high low : UInt16)
  deriving DecidableEq

namespace CodePoint

def units : CodePoint → Utf16
  | single u => [u]
  | pair high low => [high, low]

/-- The code point of a character of the basic plane. -/
def ofChar (c : Char) : CodePoint := single (codeUnit c)

end CodePoint

/-- The code points of a text, from the left. -/
def decode : Utf16 → List CodePoint
  | [] => []
  | [u] => [.single u]
  | u :: v :: rest =>
      if isHighSurrogate u && isLowSurrogate v then .pair u v :: decode rest
      else .single u :: decode (v :: rest)

namespace CodePoint

variable {s t : Utf16}

theorem units_pos (p : CodePoint) : 0 < p.units.length := by
  cases p <;> simp [units]

theorem flatMap_units_decode (s : Utf16) : (decode s).flatMap units = s := by
  induction s using decode.induct with
  | case1 => rfl
  | case2 u => rfl
  | case3 u v rest hpair ih => simp [decode, hpair, units, ih]
  | case4 u v rest hpair ih =>
      rw [decode, if_neg hpair, List.flatMap_cons, ih]
      rfl

/-- Reading is compositional where the right part does not start with a low surrogate. -/
theorem decode_append (ht : ∀ u ∈ t.head?, isLowSurrogate u = false) :
    decode (s ++ t) = decode s ++ decode t := by
  induction s using decode.induct with
  | case1 => rfl
  | case2 u =>
      cases t with
      | nil => rfl
      | cons v rest =>
          have hlow : isLowSurrogate v = false := ht v rfl
          simp [decode, hlow]
  | case3 u v rest hpair ih => simp [decode, hpair, ih]
  | case4 u v rest hpair ih =>
      rw [List.cons_append, List.cons_append, decode, if_neg hpair, decode, if_neg hpair]
      rw [← List.cons_append, ih, List.cons_append]

/-- A text that starts with a unit of its own, and no low surrogate behind a high one, is read
as that unit first. -/
theorem decode_cons {u : UInt16} (hu : isHighSurrogate u = false) :
    decode (u :: t) = single u :: decode t := by
  cases t with
  | nil => rfl
  | cons v rest => simp [decode, hu]

theorem decode_ne_nil (hs : s ≠ []) : decode s ≠ [] := by
  intro hnil
  have hback := flatMap_units_decode s
  rw [hnil] at hback
  exact hs hback.symm

/-- The units of the code points a text starts with are what the text starts with. -/
theorem units_prefix {points more : List CodePoint} (h : decode s = points ++ more) :
    points.flatMap units <+: s := by
  refine ⟨more.flatMap units, ?_⟩
  rw [← List.flatMap_append, ← h, flatMap_units_decode]

theorem mem_of_mem_decode {u : UInt16} (h : single u ∈ decode s) : u ∈ s := by
  rw [← flatMap_units_decode s]
  exact List.mem_flatMap.mpr ⟨_, h, List.mem_singleton_self u⟩

end CodePoint

example : decode (utf16 "a😀".toList) = [.single 97, .pair 0xD83D 0xDE00] := by
  decide

end Otoroshi
