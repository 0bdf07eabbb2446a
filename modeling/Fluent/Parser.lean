/-
This file holds the parser: a place among the lexemes of a source.
-/

import Fluent.Grammar
import Fluent.Source.Memory

namespace Fluent

structure Parser where
  /-- The lexemes not read yet. -/
  ahead : List Lexeme
  /-- The length of the input, in bytes and in characters. -/
  byteLength : Nat
  charLength : Nat
  /-- The fault that cut the input short, until it is reported. -/
  fault : Option Fault
  /-- Whether the sequence of definitions has ended. -/
  done : Bool
  deriving DecidableEq, Repr

namespace Parser

def ofTranscript (transcript : Transcript) : Parser :=
  ⟨transcript.lexemes, transcript.byteLength, transcript.charLength, transcript.fault, false⟩

def ofSource {σ : Type} [CharSource σ] (source : σ) : Parser :=
  ofTranscript (Transcript.ofSource source)

def ofString (text : String) : Parser :=
  ofSource (TextSource.ofString text)

/-- The pending fault as an error, or else the given error. -/
def faultOr (error : Error) (parser : Parser) : Error × Parser :=
  match parser.fault with
  | some fault => (.transport fault, { parser with fault := none })
  | none => (error, parser)

/-- The transport is blamed at the end of the input and in an illegal token that it cut short. -/
def report (mismatch : Grammar.Mismatch) (parser : Parser) : Error × Parser :=
  match mismatch.found with
  | none =>
    parser.faultOr
      (.unexpected ⟨mismatch.expected, .finish, "", parser.byteLength, parser.charLength⟩)
  | some lexeme =>
    if lexeme.kind = .illegal then
      let illegal := Error.lexical ⟨lexeme.literal, lexeme.byteOffset, lexeme.charOffset⟩
      if lexeme.cut then parser.faultOr illegal else (illegal, parser)
    else
      (.unexpected ⟨mismatch.expected, lexeme.kind, lexeme.literal, lexeme.byteOffset,
        lexeme.charOffset⟩, parser)

/-- Goes on behind a phrase. -/
def settle {α : Type} (outcome : Grammar.Outcome α) (parser : Parser) :
    Except Error α × Parser :=
  match outcome with
  | (.ok value, rest) => (.ok value, { parser with ahead := rest })
  | (.error mismatch, rest) =>
    match report mismatch { parser with ahead := rest } with
    | (error, after) => (.error error, after)

/-- A phrase is absent only where the input has ended in good order. -/
def settleOptional {α : Type} (outcome : Grammar.Outcome (Option α)) (parser : Parser) :
    Except Error (Option α) × Parser :=
  match settle outcome parser with
  | (.ok none, after) =>
    match after.fault with
    | some fault => (.error (.transport fault), { after with fault := none })
    | none => (.ok none, after)
  | settled => settled

def target (parser : Parser) : Except Error (Option String) × Parser :=
  settleOptional (Grammar.target parser.ahead) parser

def receiver (parser : Parser) : Except Error String × Parser :=
  settle (Grammar.receiver parser.ahead) parser

def call (first : Bool) (parser : Parser) : Except Error (Option Call) × Parser :=
  settle (Grammar.call first parser.ahead) parser

def arguments (parser : Parser) : Except Error (List Argument) × Parser :=
  settle (Grammar.arguments parser.ahead) parser

def definition (parser : Parser) : Except Error (Option Definition) × Parser :=
  settleOptional (Grammar.definition parser.ahead) parser

/-- The next of the definitions; `none` once they have ended or one has failed. -/
def next (parser : Parser) : Option (Except Error Definition) × Parser :=
  if parser.done then (none, parser)
  else match parser.definition with
    | (.ok (some definition), after) => (some (.ok definition), after)
    | (.ok none, after) => (none, { after with done := true })
    | (.error error, after) => (some (.error error), { after with done := true })

theorem ahead_report (mismatch : Grammar.Mismatch) (parser : Parser) :
    (report mismatch parser).2.ahead = parser.ahead := by
  unfold report faultOr
  grind

theorem settle_eq_ok {α : Type} {outcome : Grammar.Outcome α} {parser after : Parser}
    {value : α} (settled : settle outcome parser = (.ok value, after)) :
    outcome = (.ok value, after.ahead) := by
  unfold settle at settled
  grind

theorem settleOptional_eq_some {α : Type} {outcome : Grammar.Outcome (Option α)}
    {parser after : Parser} {value : α}
    (settled : settleOptional outcome parser = (.ok (some value), after)) :
    outcome = (.ok (some value), after.ahead) := by
  unfold settleOptional at settled
  have whole : settle outcome parser = (.ok (some value), after) := by grind
  exact settle_eq_ok whole

theorem length_ahead_target_lt {parser after : Parser} {name : String}
    (read : parser.target = (.ok (some name), after)) :
    after.ahead.length < parser.ahead.length :=
  Grammar.length_target_lt (settleOptional_eq_some read)

theorem length_ahead_call_lt {first : Bool} {parser after : Parser} {result : Option Call}
    (read : parser.call first = (.ok result, after)) :
    after.ahead.length < parser.ahead.length :=
  Grammar.length_call_lt (settle_eq_ok read)

theorem length_ahead_receiver_lt {parser after : Parser} {name : String}
    (read : parser.receiver = (.ok name, after)) :
    after.ahead.length < parser.ahead.length :=
  Grammar.length_receiver_lt (settle_eq_ok read)

theorem length_ahead_next_lt {parser after : Parser} {definition : Definition}
    (read : parser.next = (some (.ok definition), after)) :
    after.ahead.length < parser.ahead.length := by
  unfold next at read
  split at read
  · simp at read
  · split at read
    next found parsed =>
      have whole := settleOptional_eq_some parsed
      have smaller := Grammar.length_definition_lt whole
      simp_all
    · simp at read
    · simp at read

/-- The definitions up to the end or the first error, and that error. -/
def definitions (parser : Parser) : List Definition × Option Error × Parser :=
  match _read : parser.next with
  | (none, after) => ([], none, after)
  | (some (.error error), after) => ([], some error, after)
  | (some (.ok definition), after) =>
    match definitions after with
    | (others, failure, last) => (definition :: others, failure, last)
termination_by parser.ahead.length
decreasing_by exact length_ahead_next_lt _read

/-- All remaining definitions as a program. -/
def program (parser : Parser) : Except Error Program × Parser :=
  match parser.definitions with
  | (definitions, none, after) => (.ok ⟨definitions⟩, after)
  | (_, some error, after) => (.error error, after)

end Parser

/-- The program that a text holds. -/
def parse (text : String) : Except Error Program :=
  (Parser.ofString text).program.1

end Fluent
