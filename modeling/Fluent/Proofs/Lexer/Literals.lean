/-
This file holds what stands in the literals of texts and numbers.
-/

import Fluent.Proofs.Lexer.Numerals
import Fluent.Proofs.Lexer.Quoted

namespace Fluent.Lexer

section

variable {character : Char}

theorem eq_quote_of_opens {part : Quoted} (opened : first character = .opens (.quoted part)) :
    character = '"' := by
  have opener := opener_of_opens opened
  cases part with
  | body => exact of_decide_eq_true opener
  | escape | unicode => cases opener

/-- A numeral is opened by a digit or by a minus. -/
theorem opening_of_opens {part : Numeral} (opened : first character = .opens (.number part)) :
    character.isDigit ∨ character = '-' := by
  have opener := opener_of_opens opened
  cases part with
  | whole => exact .inl opener
  | sign => exact .inr (of_decide_eq_true opener)
  | fraction | exponent | exponentSign | exponentDigits => cases opener

end

section

variable {text : List Char}

/-- A token that is no word and no mark has been opened by its first character. -/
theorem exists_opens {text : List Char} {kind : Kind} (found : (readToken text).kind = kind)
    (read : kind ∈ [.text, .integer, .float]) :
    ∃ character rest state, text = character :: rest ∧ first character = .opens state ∧
      kind ∈ state.outcomes := by
  cases text with
  | nil =>
    subst found
    exact absurd read (by decide)
  | cons character rest =>
    cases opened : first character with
    | opens state =>
      have wordless : isWordless kind := by
        revert read
        cases kind <;> decide
      rw [readToken_of_opens opened] at found
      have same : (readFrom state rest).kind = kind := eq_of_classify wordless found
      exact ⟨character, rest, state, rfl, opened, same ▸ kind_readFrom_mem_outcomes state rest⟩
    | alone other =>
      rw [readToken_of_alone opened] at found
      obtain rfl : other = kind := found
      have among := kind_of_alone opened
      simp only [List.mem_cons, List.not_mem_nil, or_false] at read
      rcases read with rfl | rfl | rfl <;> exact absurd among (by decide)

/-- A text that is one token of a text is a quoted text. -/
theorem isQuoted_of_readToken (found : (readToken text).kind = .text)
    (whole : (readToken text).rest = []) : IsQuoted text := by
  obtain ⟨character, rest, state, rfl, opened, among⟩ := exists_opens found (by decide)
  obtain ⟨part, rfl⟩ : ∃ part, state = .quoted part := by
    cases state <;> simp_all [State.outcomes]
  obtain rfl := eq_quote_of_opens opened
  by_cases some : ∃ front, front <+: '"' :: rest ∧ IsQuoted front
  · obtain ⟨front, ⟨later, split⟩, quoted⟩ := some
    have read := readToken_of_isQuoted quoted later
    rw [split] at read
    rw [read] at whole
    obtain rfl : later = [] := whole
    rwa [← split, List.append_nil]
  · have none : ∀ front, front <+: '"' :: rest → ¬ IsQuoted front := fun front before quoted =>
      some ⟨front, before, quoted⟩
    rcases readToken_of_not_isQuoted none with ⟨broken, later, -, -, read⟩ | ⟨-, read⟩ <;>
      rw [read] at found <;> cases found

/-- A text that is one token of a number is a numeral. -/
theorem isNumeral_of_readToken {kind : Kind} (found : (readToken text).kind = kind)
    (number : kind ∈ [.integer, .float]) (whole : (readToken text).rest = []) :
    IsNumeral text ∧
      kind = if '.' ∈ text ∨ 'e' ∈ text ∨ 'E' ∈ text then .float else .integer := by
  obtain ⟨character, rest, state, rfl, opened, among⟩ :=
    exists_opens found (List.mem_cons_of_mem _ number)
  obtain ⟨part, rfl⟩ : ∃ part, state = .number part := by
    simp only [List.mem_cons, List.not_mem_nil, or_false] at number
    rcases number with rfl | rfl <;> cases state <;> simp_all [State.outcomes]
  obtain ⟨front, later, split, -, legal, illegal⟩ :=
    readToken_longest_numeral (opening_of_opens opened) rest
  by_cases numeral : IsNumeral front
  · rw [legal numeral] at found whole
    obtain rfl : later = [] := whole
    rw [split, List.append_nil]
    exact ⟨numeral, found.symm⟩
  · rw [illegal numeral] at found
    obtain rfl : .illegal = kind := found
    exact absurd number (by decide)

theorem IsNumeral.exists_opening (numeral : IsNumeral text) :
    ∃ character rest, text = character :: rest ∧ (character.isDigit ∨ character = '-') := by
  cases numeral with
  | unsigned some =>
    obtain ⟨digit, digits, rfl⟩ := List.exists_cons_of_ne_nil some.1
    exact ⟨digit, _, rfl, .inl (some.2 digit List.mem_cons_self)⟩
  | negative => exact ⟨'-', _, rfl, .inr rfl⟩

/-- A numeral that nothing follows is one token. -/
theorem readToken_of_isNumeral (numeral : IsNumeral text) :
    readToken text =
      ⟨if '.' ∈ text ∨ 'e' ∈ text ∨ 'E' ∈ text then .float else .integer, text, [], true⟩ := by
  obtain ⟨character, rest, rfl, opening⟩ := numeral.exists_opening
  obtain ⟨front, later, split, longest, legal, -⟩ := readToken_longest_numeral opening rest
  have begins : Begins IsNumeral (character :: rest) := ⟨[], by rwa [List.append_nil]⟩
  have whole := longest.longest _ List.prefix_rfl begins
  obtain rfl : front = character :: rest :=
    longest.isPrefix.eq_of_length_le whole.length_le
  obtain rfl : later = [] := List.append_right_eq_self.1 split.symm
  exact legal numeral

end

end Fluent.Lexer
