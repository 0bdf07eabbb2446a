/-
This file holds what becomes of tokens where their text is cut.
-/

import Fluent.Proofs.Lexer.Boundary

namespace Fluent

/-- Whether a kind of token ends a call or a definition. -/
def Kind.isClosing (kind : Kind) : Bool :=
  kind = .closeParen || kind = .semicolon

namespace Lexer

/-- What is read does not depend on what comes behind, unless the reading meets the end. -/
theorem readFrom_append_of_going {state : State} {text : List Char}
    (going : (readFrom state text).ended = false) (more : List Char) :
    readFrom state (text ++ more) =
      { readFrom state text with rest := (readFrom state text).rest ++ more } := by
  fun_induction readFrom state text with
  | case1 state => cases going
  | case2 state character rest next moved hypothesis =>
    rw [List.cons_append, readFrom_of_advance moved, hypothesis going]
    rfl
  | case3 state character rest kind moved => exact readFrom_of_close moved
  | case4 state character rest kind moved => exact readFrom_of_stop moved

/-- A reading that meets the end has taken all of the text. -/
theorem advanceAll_of_ended {state : State} {text : List Char}
    (ended : (readFrom state text).ended = true) :
    ∃ final, advanceAll state text = some final ∧
      readFrom state text = ⟨final.atEnd, text, [], true⟩ := by
  fun_induction readFrom state text with
  | case1 state => exact ⟨state, rfl, rfl⟩
  | case2 state character rest next moved hypothesis =>
    obtain ⟨final, advanced, read⟩ := hypothesis ended
    refine ⟨final, ?_, by rw [read]; rfl⟩
    rw [advanceAll, moved]
    exact advanced
  | case3 => cases ended
  | case4 => cases ended

/-- A reading that does not meet the end halts at a character. -/
theorem exists_halt_of_going {state : State} {text : List Char}
    (going : (readFrom state text).ended = false) :
    ∃ before character later final, text = before ++ character :: later ∧
      advanceAll state before = some final ∧ ∀ next, step final character ≠ .advance next := by
  fun_induction readFrom state text with
  | case1 state => cases going
  | case2 state character rest next moved hypothesis =>
    obtain ⟨before, halting, later, final, rfl, advanced, halted⟩ := hypothesis going
    refine ⟨character :: before, halting, later, final, rfl, ?_, halted⟩
    rw [advanceAll, moved]
    exact advanced
  | case3 state character rest kind moved =>
    refine ⟨[], character, rest, state, rfl, rfl, fun next advanced => ?_⟩
    cases moved.symm.trans advanced
  | case4 state character rest kind moved =>
    refine ⟨[], character, rest, state, rfl, rfl, fun next advanced => ?_⟩
    cases moved.symm.trans advanced

theorem readToken_append_of_going {text : List Char} (going : (readToken text).ended = false)
    (more : List Char) :
    readToken (text ++ more) =
      { readToken text with rest := (readToken text).rest ++ more } := by
  cases text with
  | nil => cases going
  | cons character rest =>
    cases opened : first character with
    | opens state =>
      rw [readToken_of_opens opened] at going ⊢
      rw [List.cons_append, readToken_of_opens opened, readFrom_append_of_going going]
      rfl
    | alone kind =>
      rw [readToken_of_alone opened]
      exact readToken_of_alone opened

/-- No token that is longer than its first character is a closing one. -/
theorem isClosing_of_opens {state : State} {character : Char}
    (opened : first character = .opens state) (rest : List Char) :
    (readToken (character :: rest)).kind.isClosing = false := by
  have among := kind_readFrom_mem_outcomes state rest
  rw [readToken_of_opens opened]
  dsimp only [Reading.classified, Reading.prepend]
  generalize (readFrom state rest).kind = kind at among
  have plain : kind.isClosing = false := by
    cases state <;> simp only [State.outcomes, List.mem_cons, List.not_mem_nil, or_false] at among
      <;> grind [Kind.isClosing]
  unfold classify
  grind [Kind.isClosing]

/-- A token that meets the end of its text takes all of it, and is no closing one. -/
theorem readToken_of_ended {character : Char} {rest : List Char}
    (ended : (readToken (character :: rest)).ended = true) (more : List Char) :
    (readToken (character :: rest)).rest = [] ∧
      (readToken (character :: rest)).kind.isClosing = false ∧
      (readToken (character :: rest ++ more)).kind.isClosing = false ∧
      ∃ further, (readToken (character :: rest ++ more)).literal = character :: rest ++ further ∧
        further ++ (readToken (character :: rest ++ more)).rest = more := by
  cases opened : first character with
  | opens state =>
    rw [readToken_of_opens opened] at ended
    obtain ⟨final, advanced, read⟩ := advanceAll_of_ended ended
    refine ⟨?_, isClosing_of_opens opened rest, isClosing_of_opens opened (rest ++ more),
      (readFrom final more).literal, ?_, ?_⟩
    · rw [readToken_of_opens opened, read]
      rfl
    · rw [List.cons_append, readToken_of_opens opened, readFrom_append_of_advanceAll advanced]
      rfl
    · rw [List.cons_append, readToken_of_opens opened, readFrom_append_of_advanceAll advanced]
      exact readFrom_literal_append_rest final more
  | alone kind =>
    rw [readToken_of_alone opened] at ended
    cases ended

/-- The kinds of a token that the end of its text has ended. -/
theorem kind_of_ended {character : Char} {rest : List Char}
    (ended : (readToken (character :: rest)).ended = true) :
    (readToken (character :: rest)).kind ∈
      [.blank, .illegal, .identifier, .trueWord, .falseWord, .nullWord, .integer, .float] := by
  cases opened : first character with
  | opens state =>
    rw [readToken_of_opens opened] at ended ⊢
    obtain ⟨final, -, read⟩ := advanceAll_of_ended ended
    have among : final.atEnd ∈ [.blank, .illegal, .identifier, .integer, .float] := by
      cases final with
      | number part => cases part <;> decide
      | _ => simp [State.atEnd]
    rw [read]
    dsimp only [Reading.classified, Reading.prepend]
    generalize final.atEnd = kind at among
    unfold classify
    grind
  | alone kind =>
    rw [readToken_of_alone opened] at ended
    cases ended

theorem exists_literal_readToken (character : Char) (rest : List Char) :
    ∃ later, (readToken (character :: rest)).literal = character :: later := by
  cases opened : first character with
  | opens state =>
    rw [readToken_of_opens opened]
    exact ⟨(readFrom state rest).literal, rfl⟩
  | alone kind =>
    rw [readToken_of_alone opened]
    exact ⟨[], rfl⟩

end Lexer

end Fluent
