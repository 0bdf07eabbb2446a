/-
This file holds what a parser has to read as a whole, up to where the input breaks off.
-/

import Fluent.Parser

namespace Fluent

/-- How an input goes on behind its definitions. -/
inductive Remainder where
  | finished
  /-- The input breaks off before the receiver of a definition, with or without its target. -/
  | broken (target : Option String) (error : Error)
  /-- The input breaks off in a chain, behind these calls. -/
  | begun (target receiver : String) (calls : List Call) (error : Error)
  deriving DecidableEq, Repr

def Remainder.error? : Remainder → Option Error
  | .finished => none
  | .broken _ error | .begun _ _ _ error => some error

/-- The target of the definition that an input breaks off in. -/
def Remainder.target? : Remainder → Option String
  | .finished => none
  | .broken target _ => target
  | .begun target _ _ _ => some target

structure Outline where
  definitions : List Definition
  remainder : Remainder
  deriving DecidableEq, Repr

namespace Parser

/-- A phrase that can be read moves the parser and changes nothing else. -/
theorem settle_eq_ok_iff {α : Type} {outcome : Grammar.Outcome α} {parser after : Parser}
    {value : α} :
    settle outcome parser = (.ok value, after) ↔
      ∃ rest, outcome = (.ok value, rest) ∧ { parser with ahead := rest } = after := by
  rcases outcome with ⟨_ | found, rest⟩
  · simp [settle]
  · simp [settle, and_assoc]

/-- The error of a phrase does not depend on what the phrase would have been. -/
theorem settle_error {α β : Type} {mismatch : Grammar.Mismatch} {rest : List Lexeme}
    {parser after : Parser} {error : Error}
    (failed : settle (α := α) (.error mismatch, rest) parser = (.error error, after)) :
    settle (α := β) (.error mismatch, rest) parser = (.error error, after) := by
  simpa [settle] using failed

/-- The calls up to the end of a chain or the first error, and that error. -/
def calls (first : Bool) (parser : Parser) : List Call × Option Error × Parser :=
  match _read : parser.call first with
  | (.error error, after) => ([], some error, after)
  | (.ok none, after) => ([], none, after)
  | (.ok (some call), after) =>
    match calls false after with
    | (others, failure, last) => (call :: others, failure, last)
termination_by parser.ahead.length
decreasing_by exact length_ahead_call_lt _read

theorem calls_eq (first : Bool) (parser : Parser) :
    parser.calls first =
      match parser.call first with
      | (.error error, after) => ([], some error, after)
      | (.ok none, after) => ([], none, after)
      | (.ok (some call), after) =>
        (call :: (after.calls false).1, (after.calls false).2) := by
  rw [calls]
  split <;> simp_all

/-- Calls read one after the other are the chain that is read at once. -/
theorem settle_calls (first : Bool) (parser : Parser) :
    settle (Grammar.calls first parser.ahead) parser =
      match parser.calls first with
      | (calls, none, after) => (.ok calls, after)
      | (_, some error, after) => (.error error, after) := by
  fun_induction Parser.calls first parser with
  | case1 first parser error after read =>
    rw [Grammar.calls]
    unfold call at read
    split
    next mismatch rest failed =>
      rw [failed] at read
      exact settle_error read
    next rest ended => simp [ended, settle] at read
    next call rest found => simp [found, settle] at read
  | case2 first parser after read =>
    obtain ⟨rest, ended, rfl⟩ := settle_eq_ok_iff.1 read
    rw [Grammar.calls]
    split <;> simp_all [settle]
  | case3 first parser call after read others failure last found hypothesis =>
    obtain ⟨rest, one, rfl⟩ := settle_eq_ok_iff.1 read
    rw [found] at hypothesis
    rw [Grammar.calls]
    split
    next => simp_all
    next => simp_all
    next next left more =>
      obtain ⟨rfl, rfl⟩ : call = next ∧ rest = left := by simp_all
      rcases read : Grammar.calls false rest with ⟨mismatch | later, left⟩
      · rw [read] at hypothesis
        cases failure with
        | none => simp [settle] at hypothesis
        | some error => exact settle_error hypothesis
      · rw [read] at hypothesis
        cases failure <;> simp_all [settle]

/-- A definition is its target, its receiver and its calls, read one after the other. -/
theorem definition_eq (parser : Parser) :
    parser.definition =
      match parser.target with
      | (.error error, after) => (.error error, after)
      | (.ok none, after) => (.ok none, after)
      | (.ok (some target), after) =>
        match after.receiver with
        | (.error error, after) => (.error error, after)
        | (.ok receiver, after) =>
          match after.calls true with
          | (calls, none, after) => (.ok (some ⟨target, receiver, calls⟩), after)
          | (_, some error, after) => (.error error, after) := by
  rcases named : Grammar.target parser.ahead with ⟨mismatch | _ | target, rest⟩
  · simp [definition, Grammar.definition, Parser.target, named, settleOptional, settle]
  · simp only [definition, Grammar.definition, Parser.target, named, settleOptional, settle]
    split <;> simp_all
  · rcases received : Grammar.receiver rest with ⟨mismatch | receiver, left⟩
    · simp [definition, Grammar.definition, Parser.target, Parser.receiver, named, received,
        settleOptional, settle]
    · have chained := settle_calls true { parser with ahead := left }
      simp only [definition, Grammar.definition, Parser.target, Parser.receiver, named, received,
        settleOptional, settle]
      rcases read : Parser.calls true { parser with ahead := left } with ⟨calls, failure, after⟩
      rw [read] at chained
      rcases whole : Grammar.calls true left with ⟨mismatch | all, last⟩ <;>
        cases failure <;> simp_all [settle]

theorem definition_of_parts {parser named received after : Parser} {target receiver : String}
    {calls : List Call} (read : parser.target = (.ok (some target), named))
    (readReceiver : named.receiver = (.ok receiver, received))
    (readCalls : received.calls true = (calls, none, after)) :
    parser.definition = (.ok (some ⟨target, receiver, calls⟩), after) := by
  rw [definition_eq, read]
  simp only [readReceiver, readCalls]

theorem settleOptional_eq_some_iff {α : Type} {outcome : Grammar.Outcome (Option α)}
    {parser after : Parser} {value : α} :
    settleOptional outcome parser = (.ok (some value), after) ↔
      settle outcome parser = (.ok (some value), after) := by
  unfold settleOptional
  split
  next rest settled => split <;> simp_all
  next => rfl

theorem length_ahead_calls_lt {first : Bool} {parser after : Parser} {calls : List Call}
    (read : parser.calls first = (calls, none, after)) :
    after.ahead.length < parser.ahead.length := by
  have chained := settle_calls first parser
  rw [read] at chained
  exact Grammar.length_calls_lt (settle_eq_ok chained)

/-- Everything that the parser has to read. -/
def outline (parser : Parser) : Outline :=
  match _named : parser.target with
  | (.error error, _) => ⟨[], .broken none error⟩
  | (.ok none, _) => ⟨[], .finished⟩
  | (.ok (some target), named) =>
    match _received : named.receiver with
    | (.error error, _) => ⟨[], .broken (some target) error⟩
    | (.ok receiver, received) =>
      match _called : received.calls true with
      | (calls, some error, _) => ⟨[], .begun target receiver calls error⟩
      | (calls, none, after) =>
        let later := after.outline
        ⟨⟨target, receiver, calls⟩ :: later.definitions, later.remainder⟩
termination_by parser.ahead.length
decreasing_by
  have first := length_ahead_target_lt _named
  have second := length_ahead_receiver_lt _received
  have third := length_ahead_calls_lt _called
  omega

theorem outline_eq (parser : Parser) :
    parser.outline =
      match parser.target with
      | (.error error, _) => ⟨[], .broken none error⟩
      | (.ok none, _) => ⟨[], .finished⟩
      | (.ok (some target), named) =>
        match named.receiver with
        | (.error error, _) => ⟨[], .broken (some target) error⟩
        | (.ok receiver, received) =>
          match received.calls true with
          | (calls, some error, _) => ⟨[], .begun target receiver calls error⟩
          | (calls, none, after) =>
            ⟨⟨target, receiver, calls⟩ :: after.outline.definitions, after.outline.remainder⟩ := by
  rw [outline]
  split
  next failed => rw [failed]
  next ended => rw [ended]
  next target named read =>
    rw [read]
    dsimp only
    split
    next failed => rw [failed]
    next receiver received found =>
      rw [found]
      dsimp only
      split
      next failed => rw [failed]
      next called => rw [called]

theorem done_definition {parser after : Parser} {definition : Definition}
    (read : parser.definition = (.ok (some definition), after)) : after.done = parser.done := by
  obtain ⟨rest, _, rfl⟩ := settle_eq_ok_iff.1 (settleOptional_eq_some_iff.1 read)
  rfl

/-- A program is all definitions of an input that does not end in an error. -/
theorem program_eq_ok_iff (parser : Parser) (program : Program) :
    parser.program.1 = .ok program ↔
      parser.definitions.1 = program.definitions ∧ parser.definitions.2.1 = none := by
  rw [Parser.program]
  rcases program with ⟨expected⟩
  rcases parser.definitions with ⟨definitions, _ | error, last⟩ <;> simp

/-- An input that is no program fails with the error that its definitions end in. -/
theorem program_eq_error_iff (parser : Parser) (error : Error) :
    parser.program.1 = .error error ↔ parser.definitions.2.1 = some error := by
  rw [Parser.program]
  rcases parser.definitions with ⟨definitions, _ | error, last⟩ <;> simp

/-- Before its end the sequence of definitions yields what can be read next. -/
theorem definitions_eq (parser : Parser) (going : parser.done = false) :
    parser.definitions =
      match parser.definition with
      | (.error error, after) => ([], some error, { after with done := true })
      | (.ok none, after) => ([], none, { after with done := true })
      | (.ok (some definition), after) =>
        (definition :: after.definitions.1, after.definitions.2) := by
  rw [definitions]
  rcases read : parser.definition with ⟨error | _ | definition, after⟩ <;>
    split <;> simp_all [next]

/-- An outline holds the definitions that a parser yields and the error that it ends with. -/
theorem definitions_eq_outline (parser : Parser) (going : parser.done = false) :
    parser.definitions.1 = parser.outline.definitions ∧
      parser.definitions.2.1 = parser.outline.remainder.error? := by
  fun_induction outline parser with
  | case1 parser error after named =>
    simp [definitions_eq parser going, definition_eq, named, Remainder.error?]
  | case2 parser after named =>
    simp [definitions_eq parser going, definition_eq, named, Remainder.error?]
  | case3 parser target after named error rest received =>
    simp [definitions_eq parser going, definition_eq, named, received, Remainder.error?]
  | case4 parser target after named receiver rest received calls error last called =>
    simp [definitions_eq parser going, definition_eq, named, received, called, Remainder.error?]
  | case5 parser target after named receiver rest received calls last called later hypothesis =>
    have read := definition_of_parts named received called
    have stillGoing : last.done = false := by rw [done_definition read, going]
    have others := hypothesis stillGoing
    simpa [definitions_eq parser going, read, later] using others

end Parser

end Fluent
