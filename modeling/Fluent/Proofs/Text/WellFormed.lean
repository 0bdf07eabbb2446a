/-
This file holds what decoding tells of bytes that may be no text.
-/

import Fluent.Proofs.Text.Utf8

namespace Fluent.Utf8

/-- Some character's bytes begin with these. -/
def Opens (part : List UInt8) : Prop :=
  ∃ character, part <+: String.utf8EncodeChar character

/-- Characters that start with this byte take so many bytes. -/
def Calls (lead : UInt8) (width : Nat) : Prop :=
  ∃ character, [lead] <+: String.utf8EncodeChar character ∧ character.utf8Size = width

theorem ofNat_eq {value : Nat} (byte : UInt8) (same : value = byte.toNat) :
    UInt8.ofNat value = byte := by
  rw [same, UInt8.ofNat_toNat]

theorem isTail_eq (byte : UInt8) :
    isTail byte = decide (0x80 ≤ byte.toNat ∧ byte.toNat ≤ 0xBF) := by
  simp [isTail, UInt8.le_iff_toNat_le]

theorem leadWidth_eq (lead : UInt8) :
    leadWidth lead =
      if lead.toNat ≤ 0x7F then some 1
      else if 0xC2 ≤ lead.toNat ∧ lead.toNat ≤ 0xDF then some 2
      else if 0xE0 ≤ lead.toNat ∧ lead.toNat ≤ 0xEF then some 3
      else if 0xF0 ≤ lead.toNat ∧ lead.toNat ≤ 0xF4 then some 4
      else none := rfl

theorem utf8EncodeChar_ofNat {code : Nat} (valid : code.isValidChar) :
    String.utf8EncodeChar (Char.ofNat code) =
      if code ≤ 0x7F then [.ofNat code]
      else if code ≤ 0x7FF then [.ofNat (code / 64 % 32 + 192), .ofNat (code % 64 + 128)]
      else if code ≤ 0xFFFF then
        [.ofNat (code / 4096 % 16 + 224), .ofNat (code / 64 % 64 + 128), .ofNat (code % 64 + 128)]
      else
        [.ofNat (code / 262144 % 8 + 240), .ofNat (code / 4096 % 64 + 128),
          .ofNat (code / 64 % 64 + 128), .ofNat (code % 64 + 128)] := by
  have whole : (Char.ofNat code).val.toNat = code := by
    rw [Char.ofNat, dif_pos valid]
    rfl
  rw [String.utf8EncodeChar, whole]

section

variable {lead second third fourth : UInt8} {character : Char}

theorem decodeOne_two_eq_ok_iff :
    decodeOne [lead, second] = .ok character ↔ isSecond lead second ∧
      Char.ofNat (lead.toNat % 32 * 64 + second.toNat % 64) = character := by
  rw [decodeOne]
  grind [tailBits]

theorem decodeOne_three_eq_ok_iff :
    decodeOne [lead, second, third] = .ok character ↔ isSecond lead second ∧ isTail third ∧
      Char.ofNat (lead.toNat % 16 * 4096 + second.toNat % 64 * 64 + third.toNat % 64) =
        character := by
  rw [decodeOne]
  grind [tailBits]

theorem decodeOne_four_eq_ok_iff :
    decodeOne [lead, second, third, fourth] = .ok character ↔ isSecond lead second ∧
      isTail third ∧ isTail fourth ∧
      Char.ofNat (lead.toNat % 8 * 262144 + second.toNat % 64 * 4096 + third.toNat % 64 * 64 +
        fourth.toNat % 64) = character := by
  rw [decodeOne]
  grind [tailBits]

/-- A character is decoded from its own bytes only. -/
theorem utf8EncodeChar_of_decodeOne {tail : List UInt8}
    (width : leadWidth lead = some (lead :: tail).length)
    (decoded : decodeOne (lead :: tail) = .ok character) :
    String.utf8EncodeChar character = lead :: tail := by
  rw [leadWidth_eq] at width
  match tail with
  | [] =>
    have ascii : lead.toNat ≤ 0x7F := by grind
    obtain rfl := Except.ok.inj decoded
    rw [utf8EncodeChar_ofNat (.inl (by omega)), if_pos ascii, UInt8.ofNat_toNat]
  | [second] =>
    have bounds : 0xC2 ≤ lead.toNat ∧ lead.toNat ≤ 0xDF := by grind
    obtain ⟨known, rfl⟩ := decodeOne_two_eq_ok_iff.1 decoded
    rw [isSecond_eq] at known
    have tailed : 0x80 ≤ second.toNat ∧ second.toNat ≤ 0xBF := by grind
    rw [utf8EncodeChar_ofNat (.inl (by omega)), if_neg (by omega), if_pos (by omega),
      ofNat_eq lead (by omega), ofNat_eq second (by omega)]
  | [second, third] =>
    have bounds : 0xE0 ≤ lead.toNat ∧ lead.toNat ≤ 0xEF := by grind
    obtain ⟨known, tailed, rfl⟩ := decodeOne_three_eq_ok_iff.1 decoded
    rw [isSecond_eq] at known
    rw [isTail_eq, decide_eq_true_eq] at tailed
    have continued : 0x80 ≤ second.toNat ∧ second.toNat ≤ 0xBF := by grind
    have shortest : lead.toNat = 0xE0 → 0xA0 ≤ second.toNat := by grind
    have single : lead.toNat = 0xED → second.toNat ≤ 0x9F := by grind
    have valid : (lead.toNat % 16 * 4096 + second.toNat % 64 * 64 +
        third.toNat % 64).isValidChar := by
      rw [Nat.isValidChar]
      omega
    rw [utf8EncodeChar_ofNat valid, if_neg (by omega), if_neg (by omega), if_pos (by omega),
      ofNat_eq lead (by omega), ofNat_eq second (by omega),
      ofNat_eq third (by omega)]
  | [second, third, fourth] =>
    have bounds : 0xF0 ≤ lead.toNat ∧ lead.toNat ≤ 0xF4 := by grind
    obtain ⟨known, tailed, ended, rfl⟩ := decodeOne_four_eq_ok_iff.1 decoded
    rw [isSecond_eq] at known
    rw [isTail_eq, decide_eq_true_eq] at tailed ended
    have continued : 0x80 ≤ second.toNat ∧ second.toNat ≤ 0xBF := by grind
    have shortest : lead.toNat = 0xF0 → 0x90 ≤ second.toNat := by grind
    have bounded : lead.toNat = 0xF4 → second.toNat ≤ 0x8F := by grind
    have valid : (lead.toNat % 8 * 262144 + second.toNat % 64 * 4096 + third.toNat % 64 * 64 +
        fourth.toNat % 64).isValidChar := by
      rw [Nat.isValidChar]
      omega
    rw [utf8EncodeChar_ofNat valid, if_neg (by omega), if_neg (by omega), if_neg (by omega),
      ofNat_eq lead (by omega), ofNat_eq second (by omega),
      ofNat_eq third (by omega), ofNat_eq fourth (by omega)]
  | second :: third :: fourth :: fifth :: rest =>
    simp only [List.length_cons] at width
    grind

/-- Several bytes decode where the second fits the lead and each later one continues. -/
theorem exists_decodeOne_iff {rest : List UInt8} (few : rest.length ≤ 2) :
    (∃ character, decodeOne (lead :: second :: rest) = .ok character) ↔
      isSecond lead second ∧ ∀ byte ∈ rest, isTail byte := by
  match rest with
  | [] => simp [decodeOne_two_eq_ok_iff]
  | [third] => simp [decodeOne_three_eq_ok_iff]
  | [third, fourth] => simp [decodeOne_four_eq_ok_iff]
  | _ :: _ :: _ :: _ => simp at few

/-- The first byte that does not fit is behind as many bytes as the error says. -/
theorem decodeOne_eq_error_iff {rest : List UInt8} (few : rest.length ≤ 2) {good : Nat} :
    decodeOne (lead :: second :: rest) = .error good ↔
      (good = 1 ∧ isSecond lead second = false) ∨
      (good = 2 ∧ isSecond lead second ∧ ∃ third more, rest = third :: more ∧
        isTail third = false) ∨
      (good = 3 ∧ isSecond lead second ∧ ∃ third fourth, rest = [third, fourth] ∧ isTail third ∧
        isTail fourth = false) := by
  match rest with
  | [] =>
    rw [decodeOne]
    grind
  | [third] =>
    rw [decodeOne]
    grind
  | [third, fourth] =>
    rw [decodeOne]
    grind
  | _ :: _ :: _ :: _ => simp at few

end

/-- The least second byte that a lead allows. -/
def leastSecond (lead : UInt8) : UInt8 :=
  if lead = 0xE0 then 0xA0 else if lead = 0xF0 then 0x90 else 0x80

theorem isSecond_leastSecond (lead : UInt8) : isSecond lead (leastSecond lead) := by
  by_cases shortest : lead = 0xE0
  · rw [shortest]
    decide
  · by_cases lowest : lead = 0xF0
    · rw [lowest]
      decide
    · have least : leastSecond lead = 0x80 := by rw [leastSecond, if_neg shortest, if_neg lowest]
      rw [least, isSecond, if_neg shortest, if_neg lowest]
      split <;> try split
      all_goals decide

theorem isTail_of_mem_replicate {count : Nat} :
    ∀ byte ∈ List.replicate count (0x80 : UInt8), isTail byte := by
  intro byte present
  rw [List.eq_of_mem_replicate present]
  decide

theorem leadWidth_bounds {lead : UInt8} {width : Nat} (known : leadWidth lead = some width) :
    1 ≤ width ∧ width ≤ 4 := by
  unfold leadWidth at known
  grind

theorem leadWidth_of_isPrefix {lead : UInt8} {character : Char}
    (before : [lead] <+: String.utf8EncodeChar character) :
    leadWidth lead = some character.utf8Size := by
  obtain ⟨first, tail, spelled, width⟩ := exists_leadWidth character
  rw [spelled, List.cons_prefix_cons] at before
  rw [before.1, width]

theorem leadWidth_eq_some_iff {lead : UInt8} {width : Nat} :
    leadWidth lead = some width ↔ Calls lead width := by
  constructor
  · intro known
    obtain ⟨several, few⟩ := leadWidth_bounds known
    have calls (tail : List UInt8) {character : Char} (long : (lead :: tail).length = width)
        (decoded : decodeOne (lead :: tail) = .ok character) : Calls lead width := by
      have whole := utf8EncodeChar_of_decodeOne (long.symm ▸ known) decoded
      refine ⟨character, ?_, ?_⟩
      · rw [whole]
        exact List.prefix_append [lead] tail
      · rw [← String.length_utf8EncodeChar, whole, long]
    by_cases single : width = 1
    · exact calls [] single.symm rfl
    · have short : (List.replicate (width - 2) (0x80 : UInt8)).length ≤ 2 := by
        rw [List.length_replicate]
        omega
      obtain ⟨character, decoded⟩ := (exists_decodeOne_iff short).2
        ⟨isSecond_leastSecond lead, isTail_of_mem_replicate⟩
      refine calls _ ?_ decoded
      simp only [List.length_cons, List.length_replicate]
      omega
  · rintro ⟨character, before, rfl⟩
    exact leadWidth_of_isPrefix before

/-- Two characters that the same bytes begin with are one. -/
theorem eq_of_isPrefix {first second : Char} {bytes : List UInt8}
    (before : String.utf8EncodeChar first <+: bytes)
    (beforeToo : String.utf8EncodeChar second <+: bytes) : first = second := by
  obtain ⟨lead, tail, spelled, width⟩ := exists_leadWidth first
  obtain ⟨leadToo, tailToo, spelledToo, widthToo⟩ := exists_leadWidth second
  obtain ⟨left, rfl⟩ := before
  obtain ⟨leftToo, same⟩ := beforeToo
  have leads := congrArg List.head? same
  rw [spelled, spelledToo] at leads
  obtain rfl : leadToo = lead := Option.some.inj leads
  have sized : second.utf8Size = first.utf8Size := Option.some.inj (widthToo.symm.trans width)
  rw [← String.length_utf8EncodeChar, ← String.length_utf8EncodeChar] at sized
  have decoded := decodeOne_utf8EncodeChar second
  rw [(List.append_inj same sized).1, decodeOne_utf8EncodeChar] at decoded
  exact Except.ok.inj decoded

/-- A text that no character follows in the bytes is the longest at their front. -/
theorem isPrefix_of_stuck {text other : List Char} {rest : List UInt8}
    (stuck : ∀ character, ¬ String.utf8EncodeChar character <+: rest)
    (before : encode other <+: encode text ++ rest) : other <+: text := by
  induction other generalizing text with
  | nil => exact List.nil_prefix
  | cons character other hypothesis =>
    rw [encode_cons] at before
    have first := (List.prefix_append _ _).trans before
    cases text with
    | nil => exact absurd first (stuck character)
    | cons own text =>
      rw [encode_cons, List.append_assoc] at before first
      obtain rfl := eq_of_isPrefix first (List.prefix_append _ _)
      rw [List.prefix_append_right_inj] at before
      exact List.cons_prefix_cons.2 ⟨rfl, hypothesis before⟩

section

variable {lead second : UInt8} {rest : List UInt8}

theorem length_le_of_leadWidth (width : leadWidth lead = some (lead :: second :: rest).length) :
    rest.length ≤ 2 := by
  have few := (leadWidth_bounds width).2
  simp only [List.length_cons] at few
  omega

theorem opens_take_of_fits (width : leadWidth lead = some (lead :: second :: rest).length)
    (allowed : isSecond lead second) (tailed : ∀ byte ∈ rest, isTail byte) (count : Nat) :
    Opens ((lead :: second :: rest).take count) := by
  obtain ⟨character, decoded⟩ :=
    (exists_decodeOne_iff (length_le_of_leadWidth width)).2 ⟨allowed, tailed⟩
  exact ⟨character, utf8EncodeChar_of_decodeOne width decoded ▸ List.take_prefix count _⟩

theorem fits_of_opens (opens : Opens (lead :: second :: rest)) :
    isSecond lead second ∧ ∀ byte ∈ rest, isTail byte := by
  obtain ⟨character, left, whole⟩ := opens
  have decoded := decodeOne_utf8EncodeChar character
  have sized := String.length_utf8EncodeChar character
  have bound := character.utf8Size_le_four
  rw [← whole, List.cons_append, List.cons_append] at decoded sized
  have few : (rest ++ left).length ≤ 2 := by
    simp only [List.length_cons] at sized
    omega
  obtain ⟨allowed, tailed⟩ := (exists_decodeOne_iff few).1 ⟨character, decoded⟩
  exact ⟨allowed, fun byte present => tailed byte (List.mem_append_left left present)⟩

/-- An error of decoding says how many bytes at the front are the first ones of a character. -/
theorem opens_of_decodeOne_error {tail : List UInt8} {good : Nat}
    (width : leadWidth lead = some (lead :: tail).length)
    (failed : decodeOne (lead :: tail) = .error good) :
    good ∈ [1, 2, 3] ∧ good < (lead :: tail).length ∧ Opens ((lead :: tail).take good) ∧
      ¬ Opens ((lead :: tail).take (good + 1)) := by
  cases tail with
  | nil => cases failed
  | cons second rest =>
    have completed {second' : UInt8} (allowed : isSecond lead second') (count : Nat) :
        Opens ((lead :: second' :: List.replicate rest.length 0x80).take count) :=
      opens_take_of_fits (by simpa using width) allowed isTail_of_mem_replicate count
    rcases (decodeOne_eq_error_iff (length_le_of_leadWidth width)).1 failed with
      ⟨rfl, wrong⟩ | ⟨rfl, allowed, third, more, rfl, wrong⟩ |
        ⟨rfl, allowed, third, fourth, rfl, tailed, wrong⟩
    · refine ⟨by simp, by simp, completed (isSecond_leastSecond lead) 1, fun opens => ?_⟩
      simp [(fits_of_opens opens).1] at wrong
    · refine ⟨by simp, by simp, completed allowed 2, fun opens => ?_⟩
      simp [(fits_of_opens opens).2 third (by simp)] at wrong
    · refine ⟨by simp, by simp, ?_, fun opens => ?_⟩
      · have continued : ∀ byte ∈ [third, 0x80], isTail byte := by
          simp only [List.forall_mem_cons, tailed, true_and]
          exact ⟨by decide, nofun⟩
        have same : leadWidth lead = some [lead, second, third, 0x80].length := width
        exact opens_take_of_fits same allowed continued 3
      · simp [(fits_of_opens opens).2 fourth (by simp)] at wrong

end

end Fluent.Utf8
