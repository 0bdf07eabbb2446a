/-
This file proves that every argument that a parser hands out is a token of the input.
-/

import Fluent.Proofs.Parser.Recovery
import Fluent.Proofs.Program.RoundTrip

namespace Fluent

open Lexer (tokens)

namespace Parser

/-- The lexemes that a parser has ahead are tokens, each the only one of its literal. -/
def Lexed (parser : Parser) : Prop :=
  ∀ lexeme ∈ parser.ahead, tokens lexeme.literal.toList = [lexeme.token]

/-- The arguments that a parser hands out, now or after any steps, failed ones among them. -/
inductive Yields : Parser → Argument → Prop
  | arguments {parser after : Parser} {arguments : List Argument} {argument : Argument}
      (read : parser.arguments = (.ok arguments, after)) (present : argument ∈ arguments) :
      Yields parser argument
  | call {parser after : Parser} {first : Bool} {call : Call} {argument : Argument}
      (read : parser.call first = (.ok (some call), after))
      (present : argument ∈ call.arguments) : Yields parser argument
  | definition {parser after : Parser} {definition : Definition} {call : Call}
      {argument : Argument} (read : parser.definition = (.ok (some definition), after))
      (called : call ∈ definition.calls) (present : argument ∈ call.arguments) :
      Yields parser argument
  | next {parser after : Parser} {definition : Definition} {call : Call} {argument : Argument}
      (read : parser.next = (some (.ok definition), after)) (called : call ∈ definition.calls)
      (present : argument ∈ call.arguments) : Yields parser argument
  | program {parser after : Parser} {program : Program} {definition : Definition} {call : Call}
      {argument : Argument} (read : parser.program = (.ok program, after))
      (defined : definition ∈ program.definitions) (called : call ∈ definition.calls)
      (present : argument ∈ call.arguments) : Yields parser argument
  | later {parser : Parser} {argument : Argument} (step : Step)
      (yields : Yields (step.perform parser).2 argument) : Yields parser argument

variable {parser after : Parser}

theorem Lexed.of_suffix (lexed : parser.Lexed) (left : after.ahead <:+ parser.ahead) :
    after.Lexed :=
  fun lexeme present => lexed lexeme (left.subset present)

/-- The lexemes at the front, as tokens, are each the only one of its literal. -/
theorem Lexed.tokens_of_used (lexed : parser.Lexed) {used rest : List Lexeme}
    (split : parser.ahead = used ++ rest) :
    ∀ token ∈ used.map Lexeme.token, tokens token.literal.toList = [token] := by
  intro token present
  obtain ⟨lexeme, taken, rfl⟩ := List.mem_map.1 present
  exact lexed lexeme (split ▸ List.mem_append_left rest taken)

theorem definition_of_next {definition : Definition}
    (read : parser.next = (some (.ok definition), after)) :
    parser.definition = (.ok (some definition), after) := by
  unfold next at read
  split at read
  · cases read
  · split at read
    next found =>
      cases read
      exact found
    next => cases read
    next => cases read

theorem ahead_next (parser : Parser) : parser.next.2.ahead <:+ parser.ahead := by
  have left := ahead_definition parser
  rw [next]
  split
  · exact List.suffix_rfl
  · generalize parser.definition = outcome at left
    obtain ⟨error | _ | definition, after⟩ := outcome <;> exact left

/-- A step takes lexemes off the front. -/
theorem Step.ahead_perform (step : Step) (parser : Parser) :
    (step.perform parser).2.ahead <:+ parser.ahead := by
  cases step with
  | target =>
    exact (ahead_settleOptional _ parser).symm ▸ (Grammar.takes_target parser.ahead).rest
  | receiver =>
    exact (ahead_settle _ parser).symm ▸ (Grammar.takes_expect _ _ parser.ahead).rest
  | call first =>
    exact (ahead_settle _ parser).symm ▸ (Grammar.takes_call first parser.ahead).rest
  | arguments =>
    exact (ahead_settle _ parser).symm ▸ (Grammar.takes_arguments parser.ahead).rest
  | definition => exact ahead_definition parser
  | next => exact ahead_next parser

theorem Lexed.wellFormed_of_definition {definition : Definition} (lexed : parser.Lexed)
    (read : parser.definition = (.ok (some definition), after)) : definition.WellFormed := by
  obtain ⟨used, split, derived⟩ := Grammar.definition_eq_some_iff.1 (settleOptional_eq_some read)
  exact derived.wellFormed (lexed.tokens_of_used split)

/-- The definitions up to the end or the first error are made of tokens. -/
theorem Lexed.wellFormed_of_definitions (lexed : parser.Lexed) :
    ∀ definition ∈ parser.definitions.1, definition.WellFormed := by
  fun_induction definitions parser with
  | case1 | case2 => exact List.forall_mem_nil _
  | case3 parser definition after read others failure last later hypothesis =>
    have left : after.ahead <:+ parser.ahead := by
      have ahead := ahead_next parser
      rwa [read] at ahead
    have first := lexed.wellFormed_of_definition (definition_of_next read)
    rw [later] at hypothesis
    exact List.forall_mem_cons.2 ⟨first, hypothesis (lexed.of_suffix left)⟩

/-- Every argument that a parser hands out is the one token of its literal. -/
theorem Yields.wellFormed {argument : Argument} (yields : parser.Yields argument)
    (lexed : parser.Lexed) : argument.WellFormed := by
  induction yields with
  | arguments read present =>
    obtain ⟨used, closing, split, -, derived⟩ := Grammar.arguments_eq_ok_iff.1 (settle_eq_ok read)
    exact derived.wellFormed (lexed.tokens_of_used split) _ present
  | call read present =>
    obtain ⟨used, split, derived⟩ := Grammar.call_eq_some_iff.1 (settle_eq_ok read)
    exact (derived.wellFormed (lexed.tokens_of_used split)).arguments _ present
  | definition read called present =>
    exact ((lexed.wellFormed_of_definition read).calls _ called).arguments _ present
  | next read called present =>
    have wellFormed := lexed.wellFormed_of_definition (definition_of_next read)
    exact (wellFormed.calls _ called).arguments _ present
  | @program parser after program definition call argument read defined called present =>
    have listed := ((program_eq_ok_iff parser program).1 (congrArg Prod.fst read)).1
    have wellFormed := lexed.wellFormed_of_definitions definition (listed ▸ defined)
    exact (wellFormed.calls _ called).arguments _ present
  | later step yields hypothesis =>
    exact hypothesis (lexed.of_suffix (step.ahead_perform _))

end Parser

theorem Input.lexed (input : Input) : input.parser.Lexed := by
  intro lexeme ahead
  have present : lexeme.token ∈ tokens input.characters := by
    rw [← input.tokens_ahead]
    exact List.mem_map_of_mem ahead
  exact Lexer.tokens_literal present

end Fluent
