/-
This file holds which texts are names: the literals of identifiers.
-/

import Fluent.Proofs.Lexer.Boundary
import Mathlib.Data.List.TakeWhile

namespace Fluent.Lexer

/-- Whether a text is a word of the identifier's characters and none of the reserved words. -/
def isName (name : String) : Bool :=
  match name.toList with
  | [] => false
  | initial :: rest =>
    isWordStart initial && rest.all isWordPart && name ∉ ["true", "false", "null"]

theorem isWordPart_of_isWordStart {character : Char} (starts : isWordStart character) :
    isWordPart character := by
  simp only [isWordStart, isWordPart, Char.isAlphanum, Bool.or_eq_true] at *
  rcases starts with alpha | underscore
  · exact .inl (.inl alpha)
  · exact .inr underscore

theorem bounds_of_isAlpha {character : Char} (alpha : character.isAlpha) :
    (65 ≤ character.toNat ∧ character.toNat ≤ 90) ∨
      (97 ≤ character.toNat ∧ character.toNat ≤ 122) := by
  rcases Bool.or_eq_true_iff.1 alpha with upper | lower
  · exact .inl (of_decide_eq_true upper)
  · obtain ⟨least, most⟩ := Bool.and_eq_true_iff.1 lower
    exact .inr ⟨of_decide_eq_true least, of_decide_eq_true most⟩

/-- The characters of a word are digits, letters, and the underscore. -/
theorem bounds_of_isWordPart {character : Char} (part : isWordPart character) :
    (48 ≤ character.toNat ∧ character.toNat ≤ 57) ∨ (65 ≤ character.toNat ∧ character.toNat ≤ 90) ∨
      character.toNat = 95 ∨ (97 ≤ character.toNat ∧ character.toNat ≤ 122) := by
  simp only [isWordPart, Char.isAlphanum, Bool.or_eq_true, decide_eq_true_eq] at part
  rcases part with (alpha | digit) | rfl
  · have bounds := bounds_of_isAlpha alpha
    omega
  · obtain ⟨least, most⟩ := Bool.and_eq_true_iff.1 digit
    exact .inl ⟨of_decide_eq_true least, of_decide_eq_true most⟩
  · decide

/-- The characters of a word are printable. -/
theorem le_toNat_of_isWordPart {character : Char} (part : isWordPart character) :
    0x30 ≤ character.toNat := by
  have bounds := bounds_of_isWordPart part
  omega

theorem isBlank_of_isWordPart {character : Char} (part : isWordPart character) :
    isBlank character = false := by
  have bounds := bounds_of_isWordPart part
  simp [isBlank, blankRanges]
  omega

theorem isBlank_of_isWordStart {character : Char} (starts : isWordStart character) :
    isBlank character = false :=
  isBlank_of_isWordPart (isWordPart_of_isWordStart starts)

theorem isWordPart_of_isName {name : String} (named : isName name) :
    ∀ character ∈ name.toList, isWordPart character := by
  unfold isName at named
  split at named
  next => cases named
  next initial rest spelled =>
    simp only [Bool.and_eq_true, List.all_eq_true] at named
    rw [spelled]
    exact List.forall_mem_cons.2 ⟨isWordPart_of_isWordStart named.1.1, named.1.2⟩

theorem first_of_isWordStart {character : Char} (starts : isWordStart character) :
    first character = .opens .word := by
  simp [first, isBlank_of_isWordStart starts, starts]

/-- A word takes all of its characters that there are. -/
theorem readFrom_word (text : List Char) :
    (readFrom .word text).kind = .identifier ∧
      (readFrom .word text).literal = text.takeWhile isWordPart ∧
      (readFrom .word text).rest = text.dropWhile isWordPart := by
  induction text with
  | nil => exact ⟨rfl, rfl, rfl⟩
  | cons character rest hypothesis =>
    by_cases part : isWordPart character
    · have moved : step .word character = .advance .word := by rw [step, if_pos part]
      obtain ⟨kind, literal, left⟩ := hypothesis
      rw [readFrom_of_advance moved, List.dropWhile_cons_of_pos part,
        List.takeWhile_cons_of_pos part]
      exact ⟨kind, congrArg (character :: ·) literal, left⟩
    · have moved : step .word character = .stop .identifier := by rw [step, if_neg part]
      rw [readFrom_of_stop moved, List.dropWhile_cons_of_neg part,
        List.takeWhile_cons_of_neg part]
      exact ⟨rfl, rfl, rfl⟩

theorem classify_eq_identifier_iff (kind : Kind) (literal : String) :
    classify kind literal = .identifier ↔
      kind = .identifier ∧ literal ∉ ["true", "false", "null"] := by
  by_cases word : kind = .identifier
  · rw [classify, if_pos word]
    split_ifs <;> simp_all
  · rw [classify, if_neg word]
    simp [word]

/-- A name is an identifier by itself. -/
theorem readToken_of_isName {name : String} (named : isName name) :
    (readToken name.toList).kind = .identifier ∧ (readToken name.toList).rest = [] := by
  unfold isName at named
  split at named
  next => cases named
  next initial rest spelled =>
    simp only [Bool.and_eq_true, decide_eq_true_eq, List.all_eq_true] at named
    obtain ⟨⟨starts, parts⟩, free⟩ := named
    obtain ⟨kind, literal, left⟩ := readFrom_word rest
    rw [List.takeWhile_eq_self_iff.2 parts] at literal
    rw [List.dropWhile_eq_nil_iff.2 parts] at left
    rw [spelled, readToken_of_opens (first_of_isWordStart starts)]
    refine ⟨(classify_eq_identifier_iff _ _).2 ⟨kind, ?_⟩, left⟩
    rw [Reading.prepend, literal, List.singleton_append, ← spelled, String.ofList_toList]
    exact free

/-- The literal of an identifier is a name. -/
theorem isName_of_readToken {text : List Char} (identified : (readToken text).kind = .identifier) :
    isName (String.ofList (readToken text).literal) := by
  cases text with
  | nil => cases identified
  | cons initial rest =>
    cases opened : first initial with
    | opens state =>
      rw [readToken_of_opens opened] at identified ⊢
      obtain ⟨kind, free⟩ := (classify_eq_identifier_iff _ _).1 identified
      have among := kind_readFrom_mem_outcomes state rest
      obtain rfl : state = .word := by
        cases state <;> simp_all [Reading.prepend, State.outcomes]
      obtain ⟨-, literal, -⟩ := readFrom_word rest
      have spelled :
          (String.ofList ((readFrom .word rest).prepend [initial]).classified.literal).toList =
            initial :: rest.takeWhile isWordPart := by
        simp [Reading.classified, Reading.prepend, literal]
      unfold isName
      rw [spelled]
      simp only [Bool.and_eq_true, decide_eq_true_eq]
      exact ⟨⟨opener_of_opens opened, List.all_takeWhile⟩, free⟩
    | alone kind =>
      rw [readToken_of_alone opened] at identified
      obtain rfl : kind = .identifier := identified
      exact absurd (kind_of_alone opened) (by decide)

/-- The names are the texts that are identifiers by themselves. -/
theorem isName_iff_tokens (name : String) :
    isName name ↔ tokens name.toList = [⟨.identifier, name⟩] := by
  rw [tokens_eq_singleton_iff]
  constructor
  · intro named
    refine ⟨?_, by decide, readToken_of_isName named⟩
    rintro rfl
    exact absurd named (by decide)
  · rintro ⟨-, -, identified, whole⟩
    have parts := readToken_literal_append_rest name.toList
    have named := isName_of_readToken identified
    rw [whole, List.append_nil] at parts
    rwa [parts, String.ofList_toList] at named

theorem isName_of_tokens_literal {token : Token}
    (alone : tokens token.literal.toList = [token]) (identified : token.kind = .identifier) :
    isName token.literal := by
  rw [isName_iff_tokens, alone, ← identified]

end Fluent.Lexer
