/-
This file holds the tokens of a text that is a list of characters.
-/

import Fluent.Lexer
import Mathlib.Tactic.SplitIfs

namespace Fluent.Lexer

/-- A token at the front of a text. -/
structure Reading where
  kind : Kind
  literal : List Char
  /-- What follows the token. -/
  rest : List Char
  /-- Whether the end of the text has been met. -/
  ended : Bool
  deriving DecidableEq, Repr

/-- The reading with characters before its literal. -/
def Reading.prepend (characters : List Char) (reading : Reading) : Reading :=
  { reading with literal := characters ++ reading.literal }

@[simp] theorem Reading.prepend_nil (reading : Reading) : reading.prepend [] = reading := rfl

@[simp] theorem Reading.prepend_prepend (first second : List Char) (reading : Reading) :
    (reading.prepend second).prepend first = reading.prepend (first ++ second) := by
  simp [Reading.prepend]

/-- Words take their kind from their literal. -/
def Reading.classified (reading : Reading) : Reading :=
  { reading with kind := classify reading.kind (String.ofList reading.literal) }

/-- Reads on from a state until the token ends. -/
def readFrom : State → List Char → Reading
  | state, [] => ⟨state.atEnd, [], [], true⟩
  | state, character :: rest =>
    match step state character with
    | .advance next => (readFrom next rest).prepend [character]
    | .close kind => ⟨kind, [character], rest, false⟩
    | .stop kind => ⟨kind, [], character :: rest, false⟩

/-- The first token of a text. -/
def readToken : List Char → Reading
  | [] => ⟨.finish, [], [], true⟩
  | character :: rest =>
    match first character with
    | .opens state => ((readFrom state rest).prepend [character]).classified
    | .alone kind => ⟨kind, [character], rest, false⟩

section

variable {state next : State} {character : Char} {kind : Kind} {rest : List Char}

theorem readFrom_of_advance (moved : step state character = .advance next) :
    readFrom state (character :: rest) = (readFrom next rest).prepend [character] := by
  rw [readFrom, moved]

theorem readFrom_of_close (moved : step state character = .close kind) :
    readFrom state (character :: rest) = ⟨kind, [character], rest, false⟩ := by
  rw [readFrom, moved]

theorem readFrom_of_stop (moved : step state character = .stop kind) :
    readFrom state (character :: rest) = ⟨kind, [], character :: rest, false⟩ := by
  rw [readFrom, moved]

theorem readToken_of_opens (opened : first character = .opens state) :
    readToken (character :: rest) = ((readFrom state rest).prepend [character]).classified := by
  rw [readToken, opened]

theorem readToken_of_alone (stands : first character = .alone kind) :
    readToken (character :: rest) = ⟨kind, [character], rest, false⟩ := by
  rw [readToken, stands]

end

/-- Nothing of the text is lost. -/
theorem readFrom_literal_append_rest (state : State) (text : List Char) :
    (readFrom state text).literal ++ (readFrom state text).rest = text := by
  fun_induction readFrom state text with
  | case1 state => rfl
  | case2 state character rest next moved hypothesis => simpa [Reading.prepend] using hypothesis
  | case3 state character rest kind moved => rfl
  | case4 state character rest kind moved => rfl

theorem readToken_literal_append_rest (text : List Char) :
    (readToken text).literal ++ (readToken text).rest = text := by
  cases text with
  | nil => rfl
  | cons character rest =>
    cases opened : first character with
    | opens state =>
      rw [readToken_of_opens opened]
      simpa [Reading.prepend, Reading.classified] using readFrom_literal_append_rest state rest
    | alone kind =>
      rw [readToken_of_alone opened]
      rfl

/-- A token of a text that has one takes at least a character. -/
theorem length_rest_readToken_lt (character : Char) (rest : List Char) :
    (readToken (character :: rest)).rest.length < (character :: rest).length := by
  cases opened : first character with
  | opens state =>
    have whole := congrArg List.length (readFrom_literal_append_rest state rest)
    rw [List.length_append] at whole
    rw [readToken_of_opens opened, List.length_cons]
    dsimp only [Reading.classified, Reading.prepend]
    omega
  | alone kind =>
    rw [readToken_of_alone opened]
    exact Nat.lt_succ_self _

theorem length_rest_readToken_le (text : List Char) :
    (readToken text).rest.length ≤ text.length - 1 := by
  cases text with
  | nil => exact Nat.le_refl 0
  | cons character rest => exact Nat.le_of_lt_succ (length_rest_readToken_lt character rest)

/-- The tokens of a text without its blanks. -/
def tokens : List Char → List Token
  | [] => []
  | character :: rest =>
    let reading := readToken (character :: rest)
    if reading.kind = .blank then tokens reading.rest
    else ⟨reading.kind, String.ofList reading.literal⟩ :: tokens reading.rest
termination_by text => text.length
decreasing_by all_goals exact length_rest_readToken_lt character rest

/-- The kinds that a token can come to from a state. -/
def State.outcomes : State → List Kind
  | .blanks => [.blank]
  | .word => [.identifier]
  | .number _ => [.integer, .float, .illegal]
  | .quoted _ => [.text, .illegal]
  | .blob _ | .blobQuoted _ _ => [.blob, .illegal]
  | .colon => [.define, .illegal]

theorem State.atEnd_mem_outcomes (state : State) : state.atEnd ∈ state.outcomes := by
  cases state with
  | number part => cases part <;> decide
  | _ => simp [State.atEnd, State.outcomes]

/-- Every move stays among the outcomes of its state. -/
theorem step_mem_outcomes (state : State) (character : Char) :
    match step state character with
    | .advance next => next.outcomes = state.outcomes
    | .close kind | .stop kind => kind ∈ state.outcomes := by
  cases state with
  | number part => cases part <;> simp only [step, Numeral.step] <;> grind [State.outcomes]
  | blob depth => unfold step; grind [State.outcomes]
  | _ => simp only [step]; grind [State.outcomes]

theorem kind_readFrom_mem_outcomes (state : State) (text : List Char) :
    (readFrom state text).kind ∈ state.outcomes := by
  fun_induction readFrom state text with
  | case1 state => exact state.atEnd_mem_outcomes
  | case2 state character rest next moved hypothesis =>
    have same := step_mem_outcomes state character
    rw [moved] at same
    exact same ▸ hypothesis
  | case3 state character rest kind moved =>
    have among := step_mem_outcomes state character
    rwa [moved] at among
  | case4 state character rest kind moved =>
    have among := step_mem_outcomes state character
    rwa [moved] at among

/-- The characters that open a token in a state. -/
def State.opener : State → Char → Bool
  | .blanks, character => isBlank character
  | .word, character => isWordStart character
  | .number .whole, character => character.isDigit
  | .number .sign, character => character = '-'
  | .quoted .body, character => character = '"'
  | .blob 0, character => character = '\x7b'
  | .colon, character => character = ':'
  | _, _ => false

theorem opener_of_opens {state : State} {character : Char}
    (opened : first character = .opens state) : state.opener character := by
  unfold first at opened
  split at opened
  next blank =>
    cases opened
    exact blank
  next =>
    split at opened
    next starts =>
      cases opened
      exact starts
    next =>
      split at opened
      next decimal =>
        cases opened
        exact decimal
      next => split at opened <;> cases opened <;> rfl

/-- Only blanks open a token of blanks, and no character opens the end. -/
theorem outcomes_of_opens {state : State} {character : Char}
    (opened : first character = .opens state) :
    (.blank ∈ state.outcomes → isBlank character) ∧ .finish ∉ state.outcomes := by
  cases state with
  | blanks => exact ⟨fun _ => opener_of_opens opened, by decide⟩
  | _ => simp [State.outcomes]

theorem kind_of_alone {character : Char} {kind : Kind} (opened : first character = .alone kind) :
    kind ∈ [.dot, .comma, .semicolon, .openParen, .closeParen, .illegal] := by
  unfold first at opened
  split at opened
  · cases opened
  · split at opened
    · cases opened
    · split at opened
      · cases opened
      · split at opened <;> cases opened <;> decide

/-- Kinds that no word has. -/
def isWordless (kind : Kind) : Bool :=
  kind ∉ [.identifier, .trueWord, .falseWord, .nullWord]

theorem eq_of_classify {kind found : Kind} {literal : String} (wordless : isWordless found)
    (classified : classify kind literal = found) : kind = found := by
  by_cases word : kind = .identifier
  · rw [classify, if_pos word] at classified
    split_ifs at classified <;> subst classified <;> exact absurd wordless (by decide)
  · rwa [classify, if_neg word] at classified

/-- A text that goes on has a token, and only blanks have a blank one. -/
theorem kind_readToken_cons (character : Char) (rest : List Char) :
    (readToken (character :: rest)).kind ≠ .finish ∧
      ((readToken (character :: rest)).kind = .blank → isBlank character) := by
  cases opened : first character with
  | opens state =>
    obtain ⟨blank, finish⟩ := outcomes_of_opens opened
    have among := kind_readFrom_mem_outcomes state rest
    have going : (readFrom state rest).kind ≠ .finish := fun same => finish (same ▸ among)
    rw [readToken_of_opens opened]
    refine ⟨classify_ne_finish _ going, fun same => blank ?_⟩
    exact eq_of_classify (by decide) same ▸ among
  | alone kind =>
    have among := kind_of_alone opened
    rw [readToken_of_alone opened]
    constructor
    · rintro rfl
      simp at among
    · rintro rfl
      simp at among

theorem eq_nil_of_kind_finish {text : List Char} (finish : (readToken text).kind = .finish) :
    text = [] := by
  cases text with
  | nil => rfl
  | cons character rest => exact absurd finish (kind_readToken_cons character rest).1

end Fluent.Lexer
