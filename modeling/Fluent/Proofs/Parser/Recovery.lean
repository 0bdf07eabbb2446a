/-
This file proves that a parser that goes on after every error comes to the end.
-/

import Fluent.Proofs.Parser.Positions

namespace Fluent

/-- One call for a definition: what it has returned, and the lexemes that it has taken. -/
structure Attempt where
  result : Except Error (Option Definition)
  taken : List Lexeme
  deriving DecidableEq

/-- An attempt that has met the end of the input. -/
def Attempt.finished : Attempt :=
  ⟨.ok none, []⟩

namespace Grammar

theorem rest_target_cons (lexeme : Lexeme) (lexemes : List Lexeme) :
    (target (lexeme :: lexemes)).2 <:+ lexemes := by
  have define := takes_expect .define .define lexemes
  rw [target]
  split
  · split
    next rest found => exact (found ▸ define).rest
    next rest failed => exact (failed ▸ define).rest
  · exact List.suffix_rfl

theorem rest_definition (lexemes : List Lexeme) :
    (definition lexemes).2 <:+ (target lexemes).2 := by
  rw [definition]
  split
  next failed => rw [failed]
  next ended => rw [ended]
  next name afterTarget named =>
    rw [named]
    have received : Takes afterTarget (receiver afterTarget) := takes_expect _ _ _
    split
    next failed => exact (failed ▸ received).rest
    next object afterReceiver found =>
      have chained := takes_calls true afterReceiver
      split
      next failed => exact (failed ▸ chained).rest.trans (found ▸ received).rest
      next more => exact (more ▸ chained).rest.trans (found ▸ received).rest

/-- A definition takes the first lexeme, whatever becomes of it. -/
theorem rest_definition_cons (lexeme : Lexeme) (lexemes : List Lexeme) :
    (definition (lexeme :: lexemes)).2 <:+ lexemes :=
  (rest_definition _).trans (rest_target_cons lexeme lexemes)

end Grammar

namespace Parser

/-- The first call for a definition. -/
def attempt (parser : Parser) : Attempt :=
  ⟨parser.definition.1,
    parser.ahead.take (parser.ahead.length - parser.definition.2.ahead.length)⟩

/-- A number of calls for definitions, each on the parser that the one before has left. -/
def attempts : Nat → Parser → List Attempt
  | 0, _ => []
  | count + 1, parser => parser.attempt :: attempts count parser.definition.2

variable {parser : Parser}

theorem ahead_settle {α : Type} (outcome : Grammar.Outcome α) (parser : Parser) :
    (settle outcome parser).2.ahead = outcome.2 := by
  obtain ⟨result, rest⟩ := outcome
  cases result with
  | ok value => rfl
  | error mismatch => exact ahead_report mismatch { parser with ahead := rest }

theorem ahead_settleOptional {α : Type} (outcome : Grammar.Outcome (Option α)) (parser : Parser) :
    (settleOptional outcome parser).2.ahead = outcome.2 := by
  have settled := ahead_settle outcome parser
  rw [settleOptional]
  split
  next after ended =>
    rw [ended] at settled
    split <;> exact settled
  next => exact settled

theorem ahead_definition (parser : Parser) : parser.definition.2.ahead <:+ parser.ahead := by
  rw [definition, ahead_settleOptional]
  exact (Grammar.takes_definition _).rest

/-- The lexemes that an attempt has taken stand before those that it has left. -/
theorem taken_append_ahead (parser : Parser) :
    parser.attempt.taken ++ parser.definition.2.ahead = parser.ahead := by
  obtain ⟨taken, split⟩ := ahead_definition parser
  rw [attempt, ← split, List.length_append, Nat.add_sub_cancel, List.take_left]

/-- Where lexemes are ahead, an attempt takes one and does not find the end. -/
theorem attempt_of_going (going : parser.ahead ≠ []) :
    parser.attempt.result ≠ .ok none ∧
      parser.definition.2.ahead.length < parser.ahead.length := by
  constructor
  · intro ended
    change parser.definition.1 = .ok none at ended
    rw [definition] at ended
    rcases read : Grammar.definition parser.ahead with ⟨mismatch | _ | value, rest⟩
    · rw [read, settleOptional, settle] at ended
      cases ended
    · exact going (Grammar.definition_eq_none_iff.1 read).1
    · rw [read, settleOptional, settle] at ended
      cases ended
  · obtain ⟨lexeme, lexemes, ahead⟩ := List.exists_cons_of_ne_nil going
    have left := Grammar.rest_definition_cons lexeme lexemes
    rw [definition, ahead_settleOptional, ahead]
    exact Nat.lt_succ_of_le left.length_le

/-- Where nothing is ahead, an attempt finds the end and changes nothing. -/
theorem definition_of_finished (finished : parser.ahead = []) (sound : parser.fault = none) :
    parser.definition = (.ok none, parser) := by
  have read : Grammar.definition parser.ahead = (.ok none, []) :=
    Grammar.definition_eq_none_iff.2 ⟨finished, rfl⟩
  rw [definition, read, settleOptional_of_unbroken _ _ sound, settle, ← finished]

/-- Where a fault is ahead alone, an attempt reports it, and none is left. -/
theorem definition_of_fault {fault : Fault} (finished : parser.ahead = [])
    (broken : parser.fault = some fault) :
    parser.definition = (.error (.transport fault), { parser with fault := none }) := by
  have read : Grammar.definition parser.ahead = (.ok none, []) :=
    Grammar.definition_eq_none_iff.2 ⟨finished, rfl⟩
  rw [definition, read, settleOptional, settle, ← finished]
  dsimp only
  rw [broken]

theorem attempts_of_finished (finished : parser.ahead = []) (sound : parser.fault = none)
    (count : Nat) : parser.attempts count = List.replicate count .finished := by
  induction count with
  | zero => rfl
  | succ count hypothesis =>
    have ended := definition_of_finished finished sound
    rw [attempts, attempt, ended, hypothesis, finished]
    rfl

/-- The attempts before the end take all that is ahead, and all later ones find the end. -/
structure EndsAfter (count : Nat) (parser : Parser) : Prop where
  going : ∀ attempt ∈ parser.attempts count, attempt.result ≠ .ok none
  taken : (parser.attempts count).flatMap Attempt.taken = parser.ahead
  ended : ∀ more,
    parser.attempts (count + more) = parser.attempts count ++ List.replicate more .finished

/-- An attempt that does not find the end puts it off by one. -/
theorem EndsAfter.succ {count : Nat} (found : parser.attempt.result ≠ .ok none)
    (later : parser.definition.2.EndsAfter count) : parser.EndsAfter (count + 1) where
  going := List.forall_mem_cons.2 ⟨found, later.going⟩
  taken := by rw [attempts, List.flatMap_cons, later.taken, taken_append_ahead]
  ended more := by
    rw [Nat.add_right_comm, attempts, later.ended more]
    rfl

theorem endsAfter_of_finished (finished : parser.ahead = []) (sound : parser.fault = none) :
    parser.EndsAfter 0 where
  going := List.forall_mem_nil _
  taken := finished.symm
  ended more := by
    rw [Nat.zero_add, attempts_of_finished finished sound]
    rfl

/-- Where nothing is ahead, at most one attempt puts off the end, which reports a fault. -/
theorem exists_endsAfter_of_finished (finished : parser.ahead = []) :
    ∃ count ≤ 1, parser.EndsAfter count := by
  cases broken : parser.fault with
  | none => exact ⟨0, Nat.zero_le 1, endsAfter_of_finished finished broken⟩
  | some fault =>
    have reported := definition_of_fault finished broken
    have found : parser.attempt.result ≠ .ok none := by
      rw [attempt, reported]
      exact nofun
    have later : parser.definition.2.EndsAfter 0 := by
      rw [reported]
      exact endsAfter_of_finished finished rfl
    exact ⟨1, Nat.le_refl 1, later.succ found⟩

/-- A parser comes to its end with at most one attempt for each lexeme and one for a fault. -/
theorem exists_endsAfter (parser : Parser) :
    ∃ count ≤ parser.ahead.length + 1, parser.EndsAfter count := by
  induction size : parser.ahead.length using Nat.strongRecOn generalizing parser with
  | ind size hypothesis =>
    by_cases finished : parser.ahead = []
    · obtain ⟨count, few, ends⟩ := exists_endsAfter_of_finished finished
      exact ⟨count, by omega, ends⟩
    · obtain ⟨found, less⟩ := attempt_of_going finished
      obtain ⟨count, few, later⟩ := hypothesis _ (size ▸ less) parser.definition.2 rfl
      exact ⟨count + 1, by omega, later.succ found⟩

end Parser

/-- A parser that goes on after every error comes to the end, within a call for each token. -/
theorem Input.attempts_reach_end (input : Input) :
    let tokens := Lexer.tokens input.characters
    ∃ count ≤ tokens.length + 1,
      (∀ attempt ∈ input.parser.attempts count, attempt.result ≠ .ok none) ∧
        ((input.parser.attempts count).flatMap Attempt.taken).map Lexeme.token = tokens ∧
        ∀ more, input.parser.attempts (count + more) =
          input.parser.attempts count ++ List.replicate more .finished := by
  intro tokens
  have ahead : input.parser.ahead.map Lexeme.token = tokens := input.tokens_ahead
  obtain ⟨count, few, ends⟩ := input.parser.exists_endsAfter
  refine ⟨count, ?_, ends.going, ?_, ends.ended⟩
  · rwa [← ahead, List.length_map]
  · rw [ends.taken, ahead]

/-- A mark in the place of another, an illegal token, the end within a definition, and the end. -/
example : ((Input.text "a ; é b :=").parser.attempts 5).map (·.taken.length) = [2, 1, 2, 0, 0] := by
  cbv

end Fluent
