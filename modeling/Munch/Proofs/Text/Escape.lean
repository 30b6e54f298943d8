import Mathlib.Tactic.SplitIfs
import Munch.Text.Escape

/-!
# Visible text can be read back

Every byte string has a visible form that is read back as that byte string, so
no two have the same. Neither tabs nor line feeds occur in it.
-/

namespace Munch

namespace Escape

/-! ## Single bytes -/

theorem hexValue?_hexDigit {value : Nat} (small : value < 16) :
    hexValue? (hexDigit value) = some value := by
  have checked : ∀ value < 16, hexValue? (hexDigit value) = some value := by
    decide
  exact checked value small

/-- A visible byte stands for itself. -/
theorem of_isVisible {byte : UInt8} (visible : isVisible byte = true)
    (other : byte ≠ 0x5c) :
    charOfByte byte ≠ '\\' ∧ (charOfByte byte).toUInt8 = byte ∧
      (charOfByte byte).toNat < 0x7f := by
  have checked : ∀ byte ∈ allBytes, isVisible byte = true → byte ≠ 0x5c →
      charOfByte byte ≠ '\\' ∧ (charOfByte byte).toUInt8 = byte ∧
        (charOfByte byte).toNat < 0x7f := by decide +kernel
  exact checked byte (mem_allBytes byte) visible other

/-- A character that begins no escape is read by itself. -/
theorem decode_cons_of_ne {char : Char} (rest : List Char)
    (plain : char ≠ '\\') :
    decode (char :: rest) =
      if isVisible char.toUInt8 ∧ char.toNat < 0x7f then
        (decode rest).map (char.toUInt8 :: ·)
      else none := by
  rw [decode]
  · simp [plain]
  all_goals
    intros
    contradiction

theorem decode_hex {high low : Nat} (highSmall : high < 16)
    (lowSmall : low < 16) (rest : List Char) :
    decode ('\\' :: 'x' :: hexDigit high :: hexDigit low :: rest) =
      (decode rest).map (UInt8.ofNat (16 * high + low) :: ·) := by
  rw [decode, hexValue?_hexDigit highSmall, hexValue?_hexDigit lowSmall]
  cases decode rest <;> rfl

theorem decode_encodeByte (byte : UInt8) (rest : List Char) :
    decode (encodeByte byte ++ rest) = (decode rest).map (byte :: ·) := by
  unfold encodeByte
  split_ifs with tab carriage feed quote double backslash visible
  · rw [tab]; rfl
  · rw [carriage]; rfl
  · rw [feed]; rfl
  · rw [quote]; rfl
  · rw [double]; rfl
  · rw [backslash]; rfl
  · rcases of_isVisible visible backslash with ⟨plain, same, below⟩
    rw [List.singleton_append, decode_cons_of_ne rest plain, same,
      if_pos ⟨visible, below⟩]
  · have high : byte.toNat / 16 < 16 := by
      have := byte.toNat_lt
      omega
    have low : byte.toNat % 16 < 16 := Nat.mod_lt _ (by decide)
    have value : UInt8.ofNat (16 * (byte.toNat / 16) + byte.toNat % 16) =
        byte := by
      rw [Nat.div_add_mod, UInt8.ofNat_toNat]
    simp only [List.cons_append, List.nil_append]
    rw [decode_hex high low, value]

/-! ## Byte strings -/

theorem decode_encode (bytes : Bytes) : decode (encode bytes) = some bytes := by
  induction bytes with
  | nil => rfl
  | cons byte bytes ih =>
      rw [encode, List.flatMap_cons, decode_encodeByte]
      rw [encode] at ih
      rw [ih, Option.map_some]

/-- The visible form of bytes fits into a field of a line. -/
theorem not_mem_encode {char : Char} (mark : char = '\t' ∨ char = '\n')
    (bytes : Bytes) : char ∉ encode bytes := by
  have checked : ∀ byte ∈ allBytes, '\t' ∉ encodeByte byte ∧
      '\n' ∉ encodeByte byte := by decide +kernel
  intro member
  rcases List.mem_flatMap.mp member with ⟨byte, _, inside⟩
  rcases checked byte (mem_allBytes byte) with ⟨tab, feed⟩
  rcases mark with rfl | rfl
  · exact tab inside
  · exact feed inside

end Escape

end Munch
