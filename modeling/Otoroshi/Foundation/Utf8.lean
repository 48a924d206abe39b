/-
# Text as bytes

The bytes of a text are those of its characters. A character up to 127 is its own byte, and
all bytes of the others are larger. So a byte of a text that is a line break is one of the
text, and a text that starts with a small byte goes on with the first byte of a character.
-/

import Otoroshi.Foundation.Text

namespace Otoroshi

namespace Utf8

def encode (text : Str) : List UInt8 := text.flatMap String.utf8EncodeChar

/-- The text of some bytes. A byte that starts no character is read as another character. -/
def decodeFrom : Nat → List UInt8 → Str
  | 0, _ => []
  | _, [] => []
  | fuel + 1, byte :: bytes =>
      match (byte :: bytes).toByteArray.utf8DecodeChar? 0 with
      | some c => c :: decodeFrom fuel ((byte :: bytes).drop c.utf8Size)
      | none => Char.ofNat 0xfffd :: decodeFrom fuel bytes

def decode (bytes : List UInt8) : Str := decodeFrom bytes.length bytes

variable {text : Str} {c : Char}

@[simp]
theorem encode_nil : encode [] = [] := rfl

theorem encode_cons : encode (c :: text) = String.utf8EncodeChar c ++ encode text :=
  List.flatMap_cons

theorem encode_append (other : Str) : encode (text ++ other) = encode text ++ encode other :=
  List.flatMap_append

/-- A character is its own byte, or all of its bytes have the highest bit. -/
theorem utf8EncodeChar_cases (c : Char) :
    (c.val ≤ 127 ∧ String.utf8EncodeChar c = [c.val.toUInt8]) ∨
      ∀ byte ∈ String.utf8EncodeChar c, 128 ≤ byte.toNat := by
  have high : ∀ (low mark : UInt8), 128 ≤ mark.toNat → 128 ≤ (low ||| mark).toNat := by
    intro low mark hmark
    rw [UInt8.toNat_or]
    exact hmark.trans Nat.right_le_or
  rcases c.utf8Size_eq with hsize | hsize | hsize | hsize
  · left
    exact ⟨Char.utf8Size_eq_one_iff.mp hsize, String.utf8EncodeChar_eq_singleton hsize⟩
  · right
    rw [String.utf8EncodeChar_eq_cons_cons hsize]
    simp only [List.mem_cons, List.not_mem_nil, or_false, forall_eq_or_imp, forall_eq]
    exact ⟨high _ _ (by decide), high _ _ (by decide)⟩
  · right
    rw [String.utf8EncodeChar_eq_cons_cons_cons hsize]
    simp only [List.mem_cons, List.not_mem_nil, or_false, forall_eq_or_imp, forall_eq]
    exact ⟨high _ _ (by decide), high _ _ (by decide), high _ _ (by decide)⟩
  · right
    rw [String.utf8EncodeChar_eq_cons_cons_cons_cons hsize]
    simp only [List.mem_cons, List.not_mem_nil, or_false, forall_eq_or_imp, forall_eq]
    exact ⟨high _ _ (by decide), high _ _ (by decide), high _ _ (by decide),
      high _ _ (by decide)⟩

theorem toNat_toUInt8 (h : c.val ≤ 127) : c.val.toUInt8.toNat = c.toNat := by
  rw [UInt32.toNat_toUInt8]
  have hle : c.val.toNat ≤ 127 := h
  show c.val.toNat % 256 = c.val.toNat
  omega

theorem newline_notMem_encode (h : '\n' ∉ text) : 10 ∉ encode text := by
  intro hmem
  obtain ⟨c, hc, hbyte⟩ := List.mem_flatMap.mp hmem
  rcases utf8EncodeChar_cases c with ⟨hsmall, hown⟩ | hhigh
  · rw [hown, List.mem_singleton] at hbyte
    have htoNat : c.toNat = 10 := by
      rw [← toNat_toUInt8 hsmall, ← hbyte]
      rfl
    have hnewline : c = '\n' := Char.toNat_inj.mp htoNat
    exact h (hnewline ▸ hc)
  · exact absurd (hhigh 10 hbyte) (by decide)

/-- After a small byte comes the first byte of a character. -/
theorem not_prefix_encode {small other : UInt8} (hsmall : small.toNat < 128)
    (hother : ¬ other.IsUTF8FirstByte) : ¬ [small, other] <+: encode text := by
  rintro ⟨rest, htext⟩
  cases text with
  | nil => cases htext
  | cons c text =>
      rw [encode_cons] at htext
      rcases utf8EncodeChar_cases c with ⟨-, hown⟩ | hhigh
      · rw [hown] at htext
        obtain ⟨-, hrest⟩ := List.cons.inj htext
        cases text with
        | nil => cases hrest
        | cons following text =>
            rw [encode_cons] at hrest
            have hpos : 0 < (String.utf8EncodeChar following).length := by
              rw [String.length_utf8EncodeChar]
              exact following.utf8Size_pos
            obtain ⟨first, bytes, hbytes⟩ := List.exists_cons_of_length_pos hpos
            have hfirst := @UInt8.isUTF8FirstByte_getElem_zero_utf8EncodeChar following
            simp only [hbytes, List.getElem_cons_zero] at hfirst
            rw [hbytes] at hrest
            obtain ⟨rfl, -⟩ := List.cons.inj hrest
            exact hother hfirst
      · cases hbytes : String.utf8EncodeChar c with
        | nil =>
            have hlength := c.utf8Size_pos
            rw [← String.length_utf8EncodeChar, hbytes] at hlength
            exact absurd hlength (Nat.lt_irrefl 0)
        | cons first bytes =>
            rw [hbytes] at htext hhigh
            obtain ⟨rfl, -⟩ := List.cons.inj htext
            exact absurd (hhigh _ List.mem_cons_self) (Nat.not_le.mpr hsmall)

theorem decodeFrom_append (fuel : Nat) (c : Char) (bytes : List UInt8) :
    decodeFrom (fuel + 1) (String.utf8EncodeChar c ++ bytes) = c :: decodeFrom fuel bytes := by
  have hsize : (String.utf8EncodeChar c).length = c.utf8Size := String.length_utf8EncodeChar c
  obtain ⟨first, rest, hbytes⟩ := List.exists_cons_of_length_pos
    (hsize ▸ c.utf8Size_pos : 0 < (String.utf8EncodeChar c).length)
  have hread : (String.utf8EncodeChar c ++ bytes).toByteArray.utf8DecodeChar? 0 = some c := by
    rw [List.toByteArray_append]
    exact ByteArray.utf8DecodeChar?_utf8EncodeChar_append
  have hdrop : (String.utf8EncodeChar c ++ bytes).drop c.utf8Size = bytes := by
    rw [← hsize, List.drop_left]
  rw [hbytes, List.cons_append] at hread hdrop ⊢
  rw [decodeFrom, hread]
  show c :: decodeFrom fuel ((first :: (rest ++ bytes)).drop c.utf8Size) = _
  rw [hdrop]

theorem decodeFrom_encode (fuel : Nat) (hfuel : (encode text).length ≤ fuel) :
    decodeFrom fuel (encode text) = text := by
  induction text generalizing fuel with
  | nil => cases fuel <;> rfl
  | cons c text ih =>
      have hpos := c.utf8Size_pos
      rw [encode_cons, List.length_append, String.length_utf8EncodeChar] at hfuel
      obtain ⟨fuel, rfl⟩ : ∃ n, fuel = n + 1 := ⟨fuel - 1, by omega⟩
      rw [encode_cons, decodeFrom_append, ih fuel (by omega)]

theorem decode_encode : decode (encode text) = text := decodeFrom_encode _ (Nat.le_refl _)

/-- A character that is its own byte is read as it is, whatever follows. -/
theorem decode_cons {byte : UInt8} (h : String.utf8EncodeChar c = [byte]) (bytes : List UInt8) :
    decode (byte :: bytes) = c :: decode bytes := by
  have happend := decodeFrom_append bytes.length c bytes
  rw [h] at happend
  exact happend

end Utf8

end Otoroshi
