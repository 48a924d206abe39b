/-
# Whole numbers of the platform

A `Long` is a whole number of 64 bits and an `Int` one of 32. They are integers
here, wrapped where the program's arithmetic can leave their range.
-/

import Mathlib.Algebra.Ring.Int.Defs
import Mathlib.Algebra.Ring.Nat
import Otoroshi.Foundation.Text

namespace Otoroshi

/-- A result of `Long` arithmetic. -/
def wrapLong (n : Int) : Int := n.bmod (2 ^ 64)

/-- `Long.toInt`. -/
def longToInt (n : Int) : Int := n.bmod (2 ^ 32)

/-- The number fits a `Long`. -/
def isLong (n : Int) : Bool := -2 ^ 63 ≤ n && n < 2 ^ 63

/-- A `Long`. -/
abbrev Long := { n : Int // isLong n = true }

/-- A number without sign, most significant digit first. -/
def parseDigits (digit : Char → Option Nat) (digits : Str) : Option Int :=
  if digits.isEmpty then none
  else digits.foldl (fun n c => n.bind fun n => (digit c).map fun d => 10 * n + (d : Int)) (some 0)

/-- `toLong`, with `none` where the platform throws. The digits are those of
`Character.digit`. -/
def parseLong (digit : Char → Option Nat) (text : Str) : Option Int :=
  (match text with
    | '-' :: digits => (parseDigits digit digits).map (- ·)
    | '+' :: digits => parseDigits digit digits
    | digits => parseDigits digit digits).filter isLong

/-- `toString`. -/
def longText (n : Int) : Str := (toString n).toList

theorem isLong_neg_one : isLong (-1) = true := rfl

theorem isLong_zero : isLong 0 = true := rfl

theorem isLong_one : isLong 1 = true := rfl

theorem isLong_two : isLong 2 = true := rfl

theorem isLong_last : isLong (2 ^ 63 - 1) = true := rfl

theorem isLong_wrapLong (n : Int) : isLong (wrapLong n) = true := by
  have hlow := Int.le_bmod (x := n) (m := 2 ^ 64) (by decide)
  have hhigh := Int.bmod_lt (x := n) (m := 2 ^ 64) (by decide)
  rw [isLong, wrapLong, Bool.and_eq_true, decide_eq_true_eq, decide_eq_true_eq]
  omega

theorem wrapLong_of_isLong {n : Int} (h : isLong n = true) : wrapLong n = n := by
  rw [isLong, Bool.and_eq_true, decide_eq_true_eq, decide_eq_true_eq] at h
  exact Int.bmod_eq_of_le (by omega) (by omega)

/-- The wrapped number fits, and differs by a multiple of the range. -/
theorem exists_wrapLong_eq (n : Int) :
    ∃ k, wrapLong n = n + k * 2 ^ 64 ∧ -2 ^ 63 ≤ wrapLong n ∧ wrapLong n < 2 ^ 63 := by
  have hlong := isLong_wrapLong n
  rw [isLong, Bool.and_eq_true, decide_eq_true_eq, decide_eq_true_eq] at hlong
  have hparts := Int.bmod_add_bdiv' n (2 ^ 64)
  use -n.bdiv (2 ^ 64)
  rw [wrapLong] at hlong ⊢
  omega

/-- Only what is too small becomes larger. -/
theorem wrapLong_le {n : Int} (h : -2 ^ 63 ≤ n) : wrapLong n ≤ n := by
  obtain ⟨k, hwrap, -, hhigh⟩ := exists_wrapLong_eq n
  omega

/-! ## Reading a written number -/

section Digits

/-- A function that reads the ten decimal digits. -/
def ReadsDigits (digit : Char → Option Nat) : Prop := ∀ d < 10, digit (Nat.digitChar d) = some d

def asciiDigit (c : Char) : Option Nat := if c.isDigit then some (c.toNat - '0'.toNat) else none

theorem readsDigits_asciiDigit : ReadsDigits asciiDigit := by
  rw [ReadsDigits]
  decide

variable {digit : Char → Option Nat}

private theorem foldl_toDigits (hdigit : ReadsDigits digit) (m : Nat) :
    (Nat.toDigits 10 m).foldl
      (fun n c => n.bind fun n => (digit c).map fun d => 10 * n + (d : Int)) (some 0) =
        some (m : Int) := by
  induction m using Nat.strongRecOn with
  | ind m ih =>
      by_cases hsmall : m < 10
      · simp [Nat.toDigits_of_lt_base hsmall, hdigit m hsmall]
      · have hlast := hdigit (m % 10) (Nat.mod_lt m (by decide))
        rw [Nat.toDigits_of_base_le (by decide) (Nat.le_of_not_lt hsmall), List.foldl_append,
          ih (m / 10) (by omega), List.foldl_cons, List.foldl_nil, Option.bind_some, hlast]
        simp
        omega

theorem parseDigits_toDigits (hdigit : ReadsDigits digit) (m : Nat) :
    parseDigits digit (Nat.toDigits 10 m) = some (m : Int) := by
  rw [parseDigits, if_neg (by simp [Nat.toDigits_ne_nil]), foldl_toDigits hdigit m]

theorem longText_ofNat (m : Nat) : longText (m : Int) = Nat.toDigits 10 m := by
  rw [longText]
  exact Nat.toList_repr

theorem longText_negSucc (m : Nat) : longText (Int.negSucc m) = '-' :: Nat.toDigits 10 (m + 1) := by
  have htext : toString (Int.negSucc m) = "-" ++ Nat.repr (m + 1) := rfl
  rw [longText, htext, String.toList_append, Nat.toList_repr]
  rfl

theorem toNat_lt_of_mem_longText {n : Int} {c : Char} (h : c ∈ longText n) : c.toNat < 128 := by
  have hdigits : ∀ m, c ∈ Nat.toDigits 10 m → c.toNat < 128 := by
    intro m hc
    have hdigit := Nat.isDigit_of_mem_toDigits (by decide) (by decide) hc
    rw [Char.isDigit, Bool.and_eq_true, decide_eq_true_eq, decide_eq_true_eq] at hdigit
    have hle : c.toNat ≤ 57 := hdigit.2
    omega
  cases n with
  | ofNat m =>
      rw [Int.ofNat_eq_natCast, longText_ofNat] at h
      exact hdigits m h
  | negSucc m =>
      rw [longText_negSucc, List.mem_cons] at h
      rcases h with rfl | h
      · decide
      · exact hdigits (m + 1) h

/-- A text of digits has no sign. -/
private theorem parseLong_of_isDigit {text : Str} (h : ∀ c ∈ text, c.isDigit = true) :
    parseLong digit text = (parseDigits digit text).filter isLong := by
  unfold parseLong
  split
  · exact absurd (h '-' List.mem_cons_self) (by decide)
  · exact absurd (h '+' List.mem_cons_self) (by decide)
  · rfl

/-- What is written for a number is read as that number, if it fits a `Long`. -/
theorem parseLong_longText_filter (hdigit : ReadsDigits digit) (n : Int) :
    parseLong digit (longText n) = (some n).filter isLong := by
  cases n with
  | ofNat m =>
      rw [Int.ofNat_eq_natCast, longText_ofNat, parseLong_of_isDigit, parseDigits_toDigits hdigit]
      intro c hc
      exact Nat.isDigit_of_mem_toDigits (by decide) (by decide) hc
  | negSucc m =>
      have hnumber : -((m + 1 : Nat) : Int) = Int.negSucc m := rfl
      rw [longText_negSucc, parseLong, parseDigits_toDigits hdigit, Option.map_some, hnumber]

theorem parseLong_longText (hdigit : ReadsDigits digit) {n : Int} (h : isLong n = true) :
    parseLong digit (longText n) = some n := by
  rw [parseLong_longText_filter hdigit n, Option.filter_some, if_pos h]

/-- Only numbers of type `Long` are read. -/
theorem isLong_of_parseLong {text : Str} {n : Int} (h : parseLong digit text = some n) :
    isLong n = true :=
  (Option.filter_eq_some_iff.mp h).2

end Digits

end Otoroshi
