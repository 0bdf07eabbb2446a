/-
This file proves that the byte form of a text is that of no other text.
-/

import Fluent.Text.Utf8

namespace Fluent.Utf8

/-- The byte form of a text is that of no other text. -/
theorem encode_injective {first second : List Char} (same : encode first = encode second) :
    first = second := by
  have whole : first.utf8Encode = second.utf8Encode := congrArg List.toByteArray same
  have decoded := congrArg ByteArray.utf8Decode? whole
  rw [List.utf8Decode?_utf8Encode, List.utf8Decode?_utf8Encode] at decoded
  simpa using decoded

theorem toNat_ofNat_of_lt {value : Nat} (small : value < 256) :
    (UInt8.ofNat value).toNat = value := by
  rw [UInt8.toNat_ofNat']
  omega

theorem isSecond_eq (lead byte : UInt8) :
    isSecond lead byte =
      if lead.toNat = 0xE0 then decide (0xA0 ≤ byte.toNat ∧ byte.toNat ≤ 0xBF)
      else if lead.toNat = 0xED then decide (0x80 ≤ byte.toNat ∧ byte.toNat ≤ 0x9F)
      else if lead.toNat = 0xF0 then decide (0x90 ≤ byte.toNat ∧ byte.toNat ≤ 0xBF)
      else if lead.toNat = 0xF4 then decide (0x80 ≤ byte.toNat ∧ byte.toNat ≤ 0x8F)
      else decide (0x80 ≤ byte.toNat ∧ byte.toNat ≤ 0xBF) := by
  simp [isSecond, isTail, UInt8.le_iff_toNat_le, ← UInt8.toNat_inj]

theorem isTail_ofNat (bits : Nat) : isTail (UInt8.ofNat (bits % 64 + 128)) := by
  simp only [isTail, Bool.and_eq_true, decide_eq_true_eq, UInt8.le_iff_toNat_le]
  rw [toNat_ofNat_of_lt (by omega)]
  exact ⟨Nat.le_add_left _ _, by show bits % 64 + 128 ≤ 191; omega⟩

theorem tailBits_ofNat (bits : Nat) : tailBits (UInt8.ofNat (bits % 64 + 128)) = bits % 64 := by
  rw [tailBits, toNat_ofNat_of_lt (by omega)]
  omega

/-- The first byte of a character tells how many there are. -/
theorem exists_leadWidth (character : Char) :
    ∃ lead tail, String.utf8EncodeChar character = lead :: tail ∧
      leadWidth lead = some character.utf8Size := by
  have valid := character.valid
  have sized := String.length_utf8EncodeChar character
  have width (lead : UInt8) : leadWidth lead =
      if lead.toNat ≤ 0x7F then some 1
      else if 0xC2 ≤ lead.toNat ∧ lead.toNat ≤ 0xDF then some 2
      else if 0xE0 ≤ lead.toNat ∧ lead.toNat ≤ 0xEF then some 3
      else if 0xF0 ≤ lead.toNat ∧ lead.toNat ≤ 0xF4 then some 4
      else none := rfl
  rw [← sized]
  unfold String.utf8EncodeChar
  simp only [UInt32.isValidChar, Nat.isValidChar] at valid
  generalize character.val.toNat = code at valid
  dsimp only
  split
  next =>
    refine ⟨_, _, rfl, ?_⟩
    rw [width, toNat_ofNat_of_lt (by omega), if_pos (by omega)]
    rfl
  next =>
    split
    next =>
      refine ⟨_, _, rfl, ?_⟩
      rw [width, toNat_ofNat_of_lt (by omega), if_neg (by omega), if_pos (by omega)]
      rfl
    next =>
      split
      next =>
        refine ⟨_, _, rfl, ?_⟩
        rw [width, toNat_ofNat_of_lt (by omega), if_neg (by omega), if_neg (by omega),
          if_pos (by omega)]
        rfl
      next =>
        refine ⟨_, _, rfl, ?_⟩
        rw [width, toNat_ofNat_of_lt (by omega), if_neg (by omega), if_neg (by omega),
          if_neg (by omega), if_pos (by omega)]
        rfl

/-- Decoding the bytes of a character gives the character. -/
theorem decodeOne_utf8EncodeChar (character : Char) :
    decodeOne (String.utf8EncodeChar character) = .ok character := by
  have valid := character.valid
  have whole : Char.ofNat character.val.toNat = character := Char.ofNat_toNat character
  unfold String.utf8EncodeChar
  simp only [UInt32.isValidChar, Nat.isValidChar] at valid
  generalize character.val.toNat = code at valid whole
  dsimp only
  split
  next ascii =>
    rw [decodeOne, toNat_ofNat_of_lt (by omega), whole]
  next =>
    split
    next two =>
      have second : isSecond (UInt8.ofNat (code / 64 % 32 + 192))
          (UInt8.ofNat (code % 64 + 128)) := by
        rw [isSecond_eq, toNat_ofNat_of_lt (by omega), toNat_ofNat_of_lt (by omega)]
        grind
      have bits : (code / 64 % 32 + 192) % 32 * 64 + code % 64 = code := by omega
      simp only [decodeOne, second, tailBits_ofNat]
      rw [toNat_ofNat_of_lt (by omega), bits, whole]
      rfl
    next =>
      split
      next three =>
        have second : isSecond (UInt8.ofNat (code / 4096 % 16 + 224))
            (UInt8.ofNat (code / 64 % 64 + 128)) := by
          rw [isSecond_eq, toNat_ofNat_of_lt (by omega), toNat_ofNat_of_lt (by omega)]
          grind
        have bits : (code / 4096 % 16 + 224) % 16 * 4096 + code / 64 % 64 * 64 + code % 64 =
            code := by omega
        simp only [decodeOne, second, isTail_ofNat, tailBits_ofNat]
        rw [toNat_ofNat_of_lt (by omega), bits, whole]
        rfl
      next =>
        have second : isSecond (UInt8.ofNat (code / 262144 % 8 + 240))
            (UInt8.ofNat (code / 4096 % 64 + 128)) := by
          rw [isSecond_eq, toNat_ofNat_of_lt (by omega), toNat_ofNat_of_lt (by omega)]
          grind
        have bits : (code / 262144 % 8 + 240) % 8 * 262144 + code / 4096 % 64 * 4096 +
            code / 64 % 64 * 64 + code % 64 = code := by omega
        simp only [decodeOne, second, isTail_ofNat, tailBits_ofNat]
        rw [toNat_ofNat_of_lt (by omega), bits, whole]
        rfl

/-- The first bytes of a text are whole characters, and perhaps some bytes of the next one. -/
theorem exists_arrived (count : Nat) (text : List Char) :
    ∃ arrived missing part, text = arrived ++ missing ∧
      (encode text).take count = encode arrived ++ part ∧ size arrived ≤ count ∧
      (∀ character ∈ missing.head?, count < size arrived + character.utf8Size) ∧
      (part ≠ [] → ∃ character left, left ≠ [] ∧
        String.utf8EncodeChar character = part ++ left) := by
  induction text generalizing count with
  | nil =>
    refine ⟨[], [], [], rfl, ?_, Nat.zero_le _, nofun, fun some => absurd rfl some⟩
    exact List.take_nil
  | cons character text hypothesis =>
    have sized := String.length_utf8EncodeChar character
    rw [encode_cons, List.take_append, sized]
    by_cases fits : character.utf8Size ≤ count
    · obtain ⟨arrived, missing, part, rfl, taken, enough, short, cut⟩ :=
        hypothesis (count - character.utf8Size)
      refine ⟨character :: arrived, missing, part, rfl, ?_, ?_, fun next first => ?_, cut⟩
      · rw [List.take_of_length_le (sized ▸ fits), taken, encode_cons, List.append_assoc]
      · rw [size_cons]
        omega
      · have fewer := short next first
        rw [size_cons]
        omega
    · have none : count - character.utf8Size = 0 := by omega
      refine ⟨[], character :: text, (String.utf8EncodeChar character).take count, rfl, ?_,
        Nat.zero_le _, fun next first => ?_, fun _ => ?_⟩
      · rw [none, List.take_zero, List.append_nil]
        rfl
      · obtain rfl := Option.some.inj first
        rw [size_nil]
        omega
      · refine ⟨character, (String.utf8EncodeChar character).drop count, fun dropped => fits ?_,
          (List.take_append_drop _ _).symm⟩
        rw [← sized]
        exact List.drop_eq_nil_iff.1 dropped

end Fluent.Utf8
