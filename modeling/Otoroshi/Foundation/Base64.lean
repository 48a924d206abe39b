/-
# Bytes in base 64

The encoding with padding, and a decoder that wants the alphabet and complete padding, or
none, and does not look at the bits that the padding stands for. So it reads more texts
than the encoder writes, and it reads what the encoder writes.
-/

import Mathlib.Data.List.Basic
import Otoroshi.Foundation.Text

namespace Otoroshi

namespace Base64

def alphabet : Str := "ABCDEFGHIJKLMNOPQRSTUVWXYZabcdefghijklmnopqrstuvwxyz0123456789+/".toList

def digitChar (n : Nat) : Char := alphabet.getD n '='

def digitValue (c : Char) : Option Nat := alphabet.idxOf? c

/-- Three bytes are four digits. Padding fills up the last four. -/
def encode : List UInt8 → Str
  | [] => []
  | [a] =>
      let n := a.toNat * 16
      [digitChar (n / 64), digitChar (n % 64), '=', '=']
  | [a, b] =>
      let n := (a.toNat * 256 + b.toNat) * 4
      [digitChar (n / 4096), digitChar (n / 64 % 64), digitChar (n % 64), '=']
  | a :: b :: c :: bytes =>
      let n := (a.toNat * 256 + b.toNat) * 256 + c.toNat
      digitChar (n / 262144) :: digitChar (n / 4096 % 64) :: digitChar (n / 64 % 64) ::
        digitChar (n % 64) :: encode bytes

def oneByte (x y : Nat) : List UInt8 := [UInt8.ofNat ((x * 64 + y) / 16)]

def twoBytes (x y z : Nat) : List UInt8 :=
  let n := (x * 64 + y) * 64 + z
  [UInt8.ofNat (n / 1024), UInt8.ofNat (n / 4)]

def threeBytes (x y z w : Nat) : List UInt8 :=
  let n := ((x * 64 + y) * 64 + z) * 64 + w
  [UInt8.ofNat (n / 65536), UInt8.ofNat (n / 256), UInt8.ofNat n]

def decode : Str → Option (List UInt8)
  | [] => some []
  | [_] => none
  | [a, b] | [a, b, '=', '='] => do
      let x ← digitValue a
      let y ← digitValue b
      some (oneByte x y)
  | [a, b, c] | [a, b, c, '='] => do
      let x ← digitValue a
      let y ← digitValue b
      let z ← digitValue c
      some (twoBytes x y z)
  | a :: b :: c :: d :: rest => do
      let x ← digitValue a
      let y ← digitValue b
      let z ← digitValue c
      let w ← digitValue d
      let bytes ← decode rest
      some (threeBytes x y z w ++ bytes)

theorem decode_three {a b c : Char} (hc : c ≠ '=') : decode [a, b, c, '='] = (do
    let x ← digitValue a
    let y ← digitValue b
    let z ← digitValue c
    some (twoBytes x y z)) := by
  simp [decode]

theorem decode_four {a b c d : Char} {rest : Str} (hd : d ≠ '=') :
    decode (a :: b :: c :: d :: rest) = (do
      let x ← digitValue a
      let y ← digitValue b
      let z ← digitValue c
      let w ← digitValue d
      let bytes ← decode rest
      some (threeBytes x y z w ++ bytes)) := by
  simp [decode, hd]

theorem digitValue_digitChar {n : Nat} (h : n < 64) : digitValue (digitChar n) = some n := by
  have hall : ∀ i : Fin 64, digitValue (digitChar i) = some i.val := by decide +kernel
  exact hall ⟨n, h⟩

theorem digitChar_ne_padding {n : Nat} (h : n < 64) : digitChar n ≠ '=' := by
  have hpadding : digitValue '=' = none := by decide +kernel
  intro heq
  have hvalue := digitValue_digitChar h
  rw [heq, hpadding] at hvalue
  cases hvalue

/-- No character of an encoding is outside the alphabet, but for the padding. -/
theorem mem_alphabet_of_mem_encode {bytes : List UInt8} {c : Char} (h : c ∈ encode bytes) :
    c ∈ '=' :: alphabet := by
  have hdigit : ∀ n, digitChar n ∈ '=' :: alphabet := by
    intro n
    rw [digitChar, List.getD_eq_getElem?_getD]
    cases hget : alphabet[n]? with
    | none => exact List.mem_cons_self
    | some d => exact List.mem_cons_of_mem _ (List.mem_of_getElem? hget)
  induction bytes using encode.induct with
  | case1 => simp [encode] at h
  | case2 a =>
      simp only [encode, List.mem_cons] at h
      grind
  | case3 a b =>
      simp only [encode, List.mem_cons] at h
      grind
  | case4 a b c bytes ih =>
      simp only [encode, List.mem_cons] at h
      grind

theorem oneByte_eq (a : UInt8) :
    oneByte (a.toNat * 16 / 64) (a.toNat * 16 % 64) = [a] := by
  have hn : (a.toNat * 16 / 64 * 64 + a.toNat * 16 % 64) / 16 = a.toNat := by omega
  rw [oneByte, hn, UInt8.ofNat_toNat]

theorem twoBytes_eq (a b : UInt8) {n : Nat} (hn : n = (a.toNat * 256 + b.toNat) * 4) :
    twoBytes (n / 4096) (n / 64 % 64) (n % 64) = [a, b] := by
  have hb := b.toNat_lt
  have hvalue : (n / 4096 * 64 + n / 64 % 64) * 64 + n % 64 = n := by omega
  have hfirst : n / 1024 = a.toNat := by omega
  have hsecond : UInt8.ofNat (n / 4) = b := by
    apply UInt8.toNat_inj.mp
    rw [UInt8.toNat_ofNat']
    omega
  simp only [twoBytes, hvalue, hfirst, hsecond, UInt8.ofNat_toNat]

theorem threeBytes_eq (a b c : UInt8) {n : Nat}
    (hn : n = (a.toNat * 256 + b.toNat) * 256 + c.toNat) :
    threeBytes (n / 262144) (n / 4096 % 64) (n / 64 % 64) (n % 64) = [a, b, c] := by
  have hb := b.toNat_lt
  have hc := c.toNat_lt
  have hvalue :
      ((n / 262144 * 64 + n / 4096 % 64) * 64 + n / 64 % 64) * 64 + n % 64 = n := by omega
  have hfirst : n / 65536 = a.toNat := by omega
  have hsecond : UInt8.ofNat (n / 256) = b := by
    apply UInt8.toNat_inj.mp
    rw [UInt8.toNat_ofNat']
    omega
  have hthird : UInt8.ofNat n = c := by
    apply UInt8.toNat_inj.mp
    rw [UInt8.toNat_ofNat']
    omega
  simp only [threeBytes, hvalue, hfirst, hsecond, hthird, UInt8.ofNat_toNat]

theorem decode_encode (bytes : List UInt8) : decode (encode bytes) = some bytes := by
  induction bytes using encode.induct with
  | case1 => rfl
  | case2 a =>
      have ha := a.toNat_lt
      simp only [encode, decode]
      rw [digitValue_digitChar (by omega), digitValue_digitChar (by omega)]
      exact congrArg some (oneByte_eq a)
  | case3 a b =>
      have ha := a.toNat_lt
      have hb := b.toNat_lt
      have hthird := digitChar_ne_padding (n := (a.toNat * 256 + b.toNat) * 4 % 64) (by omega)
      simp only [encode]
      rw [decode_three hthird, digitValue_digitChar (by omega), digitValue_digitChar (by omega),
        digitValue_digitChar (by omega)]
      exact congrArg some (twoBytes_eq a b rfl)
  | case4 a b c bytes ih =>
      have ha := a.toNat_lt
      have hb := b.toNat_lt
      have hc := c.toNat_lt
      have hlast := digitChar_ne_padding
        (n := ((a.toNat * 256 + b.toNat) * 256 + c.toNat) % 64) (by omega)
      simp only [encode]
      rw [decode_four hlast, digitValue_digitChar (by omega), digitValue_digitChar (by omega),
        digitValue_digitChar (by omega), digitValue_digitChar (by omega), ih]
      exact congrArg (fun bytes' => some (bytes' ++ bytes)) (threeBytes_eq a b c rfl)

end Base64

end Otoroshi
