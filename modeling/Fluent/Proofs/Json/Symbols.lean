/-
This file proves that the reader knows the blanks, escapes and digits of the grammar.
-/

import Fluent.Proofs.Json.Grammar

namespace Fluent.Json

theorem isSpace_iff {character : Char} :
    isSpace character ↔ character ∈ [' ', '\t', '\n', '\r'] := by
  simp [isSpace, or_assoc]

/-- The reader knows the signs and letters behind a backslash. -/
theorem escapeValue?_eq_some_iff {mark character : Char} :
    escapeValue? mark = some character ↔ EscapeSpelled character mark := by
  constructor
  · intro value
    unfold escapeValue? at value
    split at value
    case h_9 => cases value
    all_goals cases Option.some.inj value
    · exact .quotationMark
    · exact .reverseSolidus
    · exact .solidus
    · exact .backspace
    · exact .formFeed
    · exact .lineFeed
    · exact .carriageReturn
    · exact .tab
  · intro stands
    cases stands <;> rfl

section

variable {value : Nat} {digit : Char}

theorem lt_of_hexValue? (found : hexValue? digit = some value) :
    digit.toNat < 128 ∧ value < 16 := by
  unfold hexValue? at found
  split at found
  next decimal =>
    have bound : digit.toNat ≤ 57 := decimal.2
    obtain rfl := Option.some.inj found
    change digit.toNat < 128 ∧ digit.toNat - 48 < 16
    omega
  next =>
    split at found
    next lower =>
      have bound : digit.toNat ≤ 102 := lower.2
      obtain rfl := Option.some.inj found
      change digit.toNat < 128 ∧ digit.toNat - 97 + 10 < 16
      omega
    next =>
      split at found
      next upper =>
        have bound : digit.toNat ≤ 70 := upper.2
        obtain rfl := Option.some.inj found
        change digit.toNat < 128 ∧ digit.toNat - 65 + 10 < 16
        omega
      next => cases found

theorem HexSpelled.lt (spelled : HexSpelled value digit) : value < 16 := by
  cases spelled with
  | lower place | upper place => exact (List.getElem?_eq_some_iff.1 place).1

/-- The reader knows the digits of base 16. -/
theorem hexValue?_eq_some_iff : hexValue? digit = some value ↔ HexSpelled value digit := by
  constructor
  · intro found
    have all : ∀ code < 128, ∀ value < 16, hexValue? (Char.ofNat code) = some value →
        (decimalDigits ++ ['a', 'b', 'c', 'd', 'e', 'f'])[value]? = some (Char.ofNat code) ∨
          (decimalDigits ++ ['A', 'B', 'C', 'D', 'E', 'F'])[value]? = some (Char.ofNat code) := by
      decide +kernel
    obtain ⟨ascii, small⟩ := lt_of_hexValue? found
    have place := all digit.toNat ascii value small
    rw [Char.ofNat_toNat] at place
    exact (place found).elim .lower .upper
  · intro spelled
    have all : ∀ letters ∈ [['a', 'b', 'c', 'd', 'e', 'f'], ['A', 'B', 'C', 'D', 'E', 'F']],
        ∀ value < 16, ((decimalDigits ++ letters)[value]?).all
          (hexValue? · == some value) := by decide +kernel
    have small := spelled.lt
    cases spelled with
    | lower place =>
      exact eq_of_beq ((Option.all_eq_true _ _).1 (all _ (by simp) value small) digit place)
    | upper place =>
      exact eq_of_beq ((Option.all_eq_true _ _).1 (all _ (by simp) value small) digit place)

end

theorem UnitSpelled.exists_eq {value : Nat} {text : List Char} (spelled : UnitSpelled value text) :
    ∃ first second third fourth, text = [first, second, third, fourth] := by
  cases spelled
  exact ⟨_, _, _, _, rfl⟩

theorem UnitSpelled.lt {value : Nat} {text : List Char} (spelled : UnitSpelled value text) :
    value < 0x10000 := by
  obtain ⟨thousands, hundreds, tens, ones⟩ := spelled
  have one := thousands.lt
  have two := hundreds.lt
  have three := tens.lt
  have four := ones.lt
  omega

/-- The reader knows the units of four digits. -/
theorem unitValue?_eq_some_iff {first second third fourth : Char} {value : Nat} :
    unitValue? first second third fourth = some value ↔
      UnitSpelled value [first, second, third, fourth] := by
  constructor
  · intro found
    unfold unitValue? at found
    split at found
    next one two three four thousands hundreds tens ones =>
      have same : value = one * 0x1000 + two * 0x100 + three * 0x10 + four := by
        have sum := Option.some.inj found
        omega
      rw [same]
      exact .digits (hexValue?_eq_some_iff.1 thousands) (hexValue?_eq_some_iff.1 hundreds)
        (hexValue?_eq_some_iff.1 tens) (hexValue?_eq_some_iff.1 ones)
    next => cases found
  · intro spelled
    obtain ⟨thousands, hundreds, tens, ones⟩ := spelled
    simp only [unitValue?, hexValue?_eq_some_iff.2 thousands, hexValue?_eq_some_iff.2 hundreds,
      hexValue?_eq_some_iff.2 tens, hexValue?_eq_some_iff.2 ones, Option.some.injEq]
    omega

/-- The reader knows the digits of base 10. -/
theorem decimalDigits_eq_some_iff {digit : Nat} {character : Char} :
    decimalDigits[digit]? = some character ↔
      character.isDigit ∧ digit = Digits.digitValue character := by
  constructor
  · intro place
    have small : digit < 10 := (List.getElem?_eq_some_iff.1 place).1
    have all : ∀ digit < 10, (decimalDigits[digit]?).all fun character =>
        character.isDigit && digit == Digits.digitValue character := by decide
    simpa using (Option.all_eq_true _ _).1 (all digit small) character place
  · rintro ⟨decimal, rfl⟩
    have all : ∀ code < 58, (Char.ofNat code).isDigit →
        decimalDigits[Digits.digitValue (Char.ofNat code)]? = some (Char.ofNat code) := by
      decide
    have range := decimal
    simp only [Char.isDigit, Bool.and_eq_true, decide_eq_true_eq] at range
    have place := all character.toNat (Nat.lt_succ_of_le range.2)
    rw [Char.ofNat_toNat] at place
    exact place decimal

/-- Digits are spelled one by one. -/
theorem digitsSpelled_iff {digits : List Nat} {text : List Char} :
    DigitsSpelled digits text ↔
      text ≠ [] ∧ (∀ character ∈ text, character.isDigit) ∧
        digits = text.map Digits.digitValue := by
  constructor
  · intro spelled
    induction spelled with
    | last place =>
      obtain ⟨decimal, rfl⟩ := decimalDigits_eq_some_iff.1 place
      exact ⟨List.cons_ne_nil _ _, List.forall_mem_singleton.2 decimal, rfl⟩
    | more place others hypothesis =>
      obtain ⟨decimal, rfl⟩ := decimalDigits_eq_some_iff.1 place
      obtain ⟨-, all, rfl⟩ := hypothesis
      exact ⟨List.cons_ne_nil _ _, List.forall_mem_cons.2 ⟨decimal, all⟩, rfl⟩
  · rintro ⟨some, all, rfl⟩
    induction text with
    | nil => exact absurd rfl some
    | cons character rest hypothesis =>
      obtain ⟨decimal, others⟩ := List.forall_mem_cons.1 all
      have place := decimalDigits_eq_some_iff.2 ⟨decimal, rfl⟩
      cases rest with
      | nil => exact .last place
      | cons second rest => exact .more place (hypothesis (List.cons_ne_nil _ _) others)

end Fluent.Json
