/-
This file holds the grammar of programs as functions that read phrases off lexemes.
-/

import Fluent.Lexeme
import Fluent.Program

namespace Fluent.Grammar

/-- What a phrase wanted and what stood there, which is nothing at the end of the input. -/
structure Mismatch where
  expected : Expectation
  found : Option Lexeme
  deriving DecidableEq, Repr

/-- The outcome of reading a phrase, and what is left. -/
abbrev Outcome (α : Type) :=
  Except Mismatch α × List Lexeme

/-- One lexeme of the given kind, of which the text matters. -/
def expect (kind : Kind) (expected : Expectation) : List Lexeme → Outcome String
  | [] => (.error ⟨expected, none⟩, [])
  | lexeme :: rest =>
    if lexeme.kind = kind then (.ok lexeme.literal, rest)
    else (.error ⟨expected, some lexeme⟩, rest)

/-- The kinds of token that can be arguments. -/
def isArgument (kind : Kind) : Bool :=
  kind ∈ [.integer, .float, .text, .trueWord, .falseWord, .blob]

/-- A name and `:=`, or nothing at the end of the input. -/
def target : List Lexeme → Outcome (Option String)
  | [] => (.ok none, [])
  | lexeme :: rest =>
    if lexeme.kind = .identifier then
      match expect .define .define rest with
      | (.ok _, rest) => (.ok (some lexeme.literal), rest)
      | (.error mismatch, rest) => (.error mismatch, rest)
    else (.error ⟨.bindingName, some lexeme⟩, rest)

def receiver : List Lexeme → Outcome String :=
  expect .identifier .receiverName

/-- One argument or more, with commas between, up to the closing parenthesis. -/
def someArguments : List Lexeme → Outcome (List Argument)
  | [] => (.error ⟨.argument, none⟩, [])
  | lexeme :: rest =>
    if isArgument lexeme.kind then
      match rest with
      | [] => (.error ⟨.commaOrCloseParen, none⟩, [])
      | separator :: rest =>
        if separator.kind = .comma then
          match someArguments rest with
          | (.ok arguments, rest) => (.ok (⟨lexeme.kind, lexeme.literal⟩ :: arguments), rest)
          | (.error mismatch, rest) => (.error mismatch, rest)
        else if separator.kind = .closeParen then (.ok [⟨lexeme.kind, lexeme.literal⟩], rest)
        else (.error ⟨.commaOrCloseParen, some separator⟩, rest)
    else (.error ⟨.argument, some lexeme⟩, rest)

/-- The arguments after an opening parenthesis, up to and with the closing one. -/
def arguments : List Lexeme → Outcome (List Argument)
  | [] => someArguments []
  | lexeme :: rest =>
    if lexeme.kind = .closeParen then (.ok [], rest) else someArguments (lexeme :: rest)

/-- What may stand before a call: the first needs its dot, a later one may be a `;` instead. -/
def callExpectation (first : Bool) : Expectation :=
  if first then .dot else .dotOrSemicolon

/-- A name and its arguments. -/
def callBody (lexemes : List Lexeme) : Outcome Call :=
  match expect .identifier .methodName lexemes with
  | (.error mismatch, rest) => (.error mismatch, rest)
  | (.ok name, rest) =>
    match expect .openParen .openParen rest with
    | (.error mismatch, rest) => (.error mismatch, rest)
    | (.ok _, rest) =>
      match arguments rest with
      | (.error mismatch, rest) => (.error mismatch, rest)
      | (.ok arguments, rest) => (.ok ⟨name, arguments⟩, rest)

/-- A dot and a call, or the `;` that ends a chain, which has a first call. -/
def call (first : Bool) : List Lexeme → Outcome (Option Call)
  | [] => (.error ⟨callExpectation first, none⟩, [])
  | lexeme :: rest =>
    if lexeme.kind = .dot then
      match callBody rest with
      | (.ok call, rest) => (.ok (some call), rest)
      | (.error mismatch, rest) => (.error mismatch, rest)
    else if lexeme.kind = .semicolon ∧ !first then (.ok none, rest)
    else (.error ⟨callExpectation first, some lexeme⟩, rest)

theorem length_expect_le (kind : Kind) (expected : Expectation) (lexemes : List Lexeme) :
    (expect kind expected lexemes).2.length ≤ lexemes.length := by
  unfold expect
  grind

theorem length_someArguments_le (lexemes : List Lexeme) :
    (someArguments lexemes).2.length ≤ lexemes.length := by
  fun_induction someArguments lexemes <;> grind

theorem length_arguments_le (lexemes : List Lexeme) :
    (arguments lexemes).2.length ≤ lexemes.length := by
  have none := length_someArguments_le []
  have some := length_someArguments_le lexemes
  unfold arguments
  grind

theorem length_callBody_le (lexemes : List Lexeme) :
    (callBody lexemes).2.length ≤ lexemes.length := by
  unfold callBody
  grind [length_expect_le, length_arguments_le]

/-- A call takes at least its dot. -/
theorem length_call_lt {first : Bool} {lexemes rest : List Lexeme} {result : Option Call}
    (read : call first lexemes = (.ok result, rest)) : rest.length < lexemes.length := by
  unfold call at read
  grind [length_callBody_le]

/-- The calls of a chain, up to and with its `;`. -/
def calls (first : Bool) (lexemes : List Lexeme) : Outcome (List Call) :=
  match _read : call first lexemes with
  | (.error mismatch, rest) => (.error mismatch, rest)
  | (.ok none, rest) => (.ok [], rest)
  | (.ok (some next), rest) =>
    match calls false rest with
    | (.error mismatch, rest) => (.error mismatch, rest)
    | (.ok others, rest) => (.ok (next :: others), rest)
termination_by lexemes.length
decreasing_by exact length_call_lt _read

/-- A whole definition, or nothing at the end of the input. -/
def definition (lexemes : List Lexeme) : Outcome (Option Definition) :=
  match target lexemes with
  | (.error mismatch, rest) => (.error mismatch, rest)
  | (.ok none, rest) => (.ok none, rest)
  | (.ok (some target), rest) =>
    match receiver rest with
    | (.error mismatch, rest) => (.error mismatch, rest)
    | (.ok receiver, rest) =>
      match calls true rest with
      | (.error mismatch, rest) => (.error mismatch, rest)
      | (.ok calls, rest) => (.ok (some ⟨target, receiver, calls⟩), rest)

theorem length_calls_lt {first : Bool} {lexemes rest : List Lexeme} {result : List Call}
    (read : calls first lexemes = (.ok result, rest)) : rest.length < lexemes.length := by
  fun_induction calls first lexemes generalizing result with
  | case1 first lexemes mismatch left failed => simp at read
  | case2 first lexemes left ended =>
    have smaller := length_call_lt ended
    simp_all
  | case3 first lexemes next left more mismatch last failed hypothesis => simp at read
  | case4 first lexemes next left more others last found hypothesis =>
    have smaller := length_call_lt more
    have further := @hypothesis others
    grind

/-- A receiver takes its name. -/
theorem length_receiver_lt {lexemes rest : List Lexeme} {name : String}
    (read : receiver lexemes = (.ok name, rest)) : rest.length < lexemes.length := by
  unfold receiver expect at read
  grind

/-- A target takes at least its name. -/
theorem length_target_lt {lexemes rest : List Lexeme} {name : String}
    (read : target lexemes = (.ok (some name), rest)) : rest.length < lexemes.length := by
  unfold target at read
  grind [length_expect_le]

/-- A definition takes at least its name. -/
theorem length_definition_lt {lexemes rest : List Lexeme} {result : Definition}
    (read : definition lexemes = (.ok (some result), rest)) : rest.length < lexemes.length := by
  unfold definition at read
  split at read
  · simp at read
  · simp at read
  next name afterTarget named =>
    have first := length_target_lt named
    have second := length_expect_le .identifier .receiverName afterTarget
    split at read
    · simp at read
    next afterReceiver received =>
      rw [receiver] at received
      rw [received] at second
      split at read
      · simp at read
      next calls last chained =>
        have third := length_calls_lt chained
        grind

end Fluent.Grammar
