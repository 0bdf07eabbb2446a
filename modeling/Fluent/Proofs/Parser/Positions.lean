/-
This file proves that a parser's errors are exact about their places.
-/

import Mathlib
import Fluent.Diagnostic
import Fluent.Proofs.Parser.Targets
import Fluent.Proofs.Source.Bytes
import Fluent.Proofs.Source.Places

namespace Fluent

/-- An error labels its own literal in the text, and counts the characters before it. -/
inductive Error.Exact (text : List Char) : Error → Prop
  | lexical {token : IllegalToken}
      (spelled : Spells text token.byteOffset (token.byteOffset + token.literal.utf8ByteSize)
        token.literal token.charOffset) : Error.Exact text (.lexical token)
  | unexpected {token : UnexpectedToken}
      (spelled : Spells text token.byteOffset (token.byteOffset + token.literal.utf8ByteSize)
        token.literal token.charOffset)
      (last : token.found = .finish → token.literal = "" ∧ token.byteOffset = Utf8.size text) :
      Error.Exact text (.unexpected token)
  | transport (fault : Fault) : Error.Exact text (.transport fault)

/-- Every label of an exact error covers whole characters of the text. -/
theorem Error.Exact.labels {text : List Char} {error : Error} (exact : error.Exact text) :
    ∀ label ∈ error.labels, ∃ literal count,
      Spells text label.offset (label.offset + label.length) literal count := by
  cases exact with
  | lexical spelled => exact List.forall_mem_singleton.2 ⟨_, _, spelled⟩
  | unexpected spelled last => exact List.forall_mem_singleton.2 ⟨_, _, spelled⟩
  | transport fault => exact nofun

namespace Grammar

/-- A phrase takes lexemes off the front, and what it blames is among those. -/
structure Takes {α : Type} (lexemes : List Lexeme) (outcome : Outcome α) : Prop where
  rest : outcome.2 <:+ lexemes
  found : ∀ mismatch, outcome.1 = .error mismatch → ∀ lexeme ∈ mismatch.found, lexeme ∈ lexemes

namespace Takes

variable {α β : Type} {lexemes rest : List Lexeme}

theorem ok (value : α) (left : rest <:+ lexemes) : Takes lexemes (.ok value, rest) := by
  refine ⟨left, fun mismatch failed => ?_⟩
  cases failed

theorem blame (expected : Expectation) {lexeme : Lexeme} (left : lexeme :: rest <:+ lexemes) :
    Takes (α := α) lexemes (.error ⟨expected, some lexeme⟩, rest) := by
  refine ⟨(List.suffix_cons lexeme rest).trans left, ?_⟩
  rintro mismatch same found present
  obtain rfl := Except.error.inj same
  obtain rfl := Option.some.inj present
  exact left.subset List.mem_cons_self

theorem ended (expected : Expectation) :
    Takes (α := α) lexemes (.error ⟨expected, none⟩, []) := by
  refine ⟨List.nil_suffix, ?_⟩
  rintro mismatch same found present
  obtain rfl := Except.error.inj same
  cases present

/-- What goes wrong in a part of a phrase goes wrong in the phrase. -/
theorem error {mismatch : Mismatch} {before : List Lexeme} (left : before <:+ lexemes)
    (takes : Takes (α := α) before (.error mismatch, rest)) :
    Takes (α := β) lexemes (.error mismatch, rest) := by
  refine ⟨takes.rest.trans left, ?_⟩
  rintro other same found present
  obtain rfl := Except.error.inj same
  exact left.subset (takes.found mismatch rfl found present)

end Takes

theorem takes_expect (kind : Kind) (expected : Expectation) (lexemes : List Lexeme) :
    Takes lexemes (expect kind expected lexemes) := by
  cases lexemes with
  | nil => exact .ended expected
  | cons lexeme rest =>
    rw [expect]
    split
    · exact .ok _ (List.suffix_cons lexeme rest)
    · exact .blame expected List.suffix_rfl

theorem takes_target (lexemes : List Lexeme) : Takes lexemes (target lexemes) := by
  cases lexemes with
  | nil => exact .ok none List.suffix_rfl
  | cons lexeme rest =>
    have define := takes_expect .define .define rest
    have further := List.suffix_cons lexeme rest
    rw [target]
    split
    · split
      next left found => exact .ok _ ((found ▸ define).rest.trans further)
      next mismatch left found => exact .error further (found ▸ define)
    · exact .blame .bindingName List.suffix_rfl

theorem takes_someArguments (lexemes : List Lexeme) :
    Takes lexemes (someArguments lexemes) := by
  fun_induction someArguments lexemes with
  | case1 => exact .ended .argument
  | case2 lexeme wanted => exact .ended .commaOrCloseParen
  | case3 lexeme wanted comma rest separated others left found hypothesis =>
    have further := (List.suffix_cons comma rest).trans (List.suffix_cons lexeme _)
    exact .ok _ ((found ▸ hypothesis).rest.trans further)
  | case4 lexeme wanted comma rest separated mismatch left found hypothesis =>
    have further := (List.suffix_cons comma rest).trans (List.suffix_cons lexeme _)
    exact .error further (found ▸ hypothesis)
  | case5 lexeme wanted closing rest separated closed =>
    exact .ok _ ((List.suffix_cons closing rest).trans (List.suffix_cons lexeme _))
  | case6 lexeme wanted separator rest separated closed =>
    exact .blame .commaOrCloseParen (List.suffix_cons lexeme _)
  | case7 lexeme rest unwanted => exact .blame .argument List.suffix_rfl

theorem takes_arguments (lexemes : List Lexeme) : Takes lexemes (arguments lexemes) := by
  cases lexemes with
  | nil => exact takes_someArguments []
  | cons lexeme rest =>
    rw [arguments]
    split
    · exact .ok [] (List.suffix_cons lexeme rest)
    · exact takes_someArguments (lexeme :: rest)

theorem takes_callBody (lexemes : List Lexeme) : Takes lexemes (callBody lexemes) := by
  have name := takes_expect .identifier .methodName lexemes
  rw [callBody]
  split
  next mismatch rest failed => exact .error List.suffix_rfl (failed ▸ name)
  next literal rest named =>
    have afterName := (named ▸ name).rest
    have opening := takes_expect .openParen .openParen rest
    split
    next mismatch rest failed => exact .error afterName (failed ▸ opening)
    next rest opened =>
      have afterOpening := (opened ▸ opening).rest.trans afterName
      have listed := takes_arguments rest
      split
      next mismatch rest failed => exact .error afterOpening (failed ▸ listed)
      next values rest found => exact .ok _ ((found ▸ listed).rest.trans afterOpening)

theorem takes_call (first : Bool) (lexemes : List Lexeme) :
    Takes lexemes (call first lexemes) := by
  cases lexemes with
  | nil => exact .ended (callExpectation first)
  | cons lexeme rest =>
    have body := takes_callBody rest
    have further := List.suffix_cons lexeme rest
    rw [call]
    split
    · split
      next value left found => exact .ok _ ((found ▸ body).rest.trans further)
      next mismatch left found => exact .error further (found ▸ body)
    · split
      · exact .ok none further
      · exact .blame (callExpectation first) List.suffix_rfl

theorem takes_calls (first : Bool) (lexemes : List Lexeme) :
    Takes lexemes (calls first lexemes) := by
  fun_induction calls first lexemes with
  | case1 first lexemes mismatch rest failed =>
    exact .error List.suffix_rfl (failed ▸ takes_call first lexemes)
  | case2 first lexemes rest ended =>
    exact .ok [] (ended ▸ takes_call first lexemes).rest
  | case3 first lexemes next rest found mismatch left failed hypothesis =>
    exact .error (found ▸ takes_call first lexemes).rest (failed ▸ hypothesis)
  | case4 first lexemes next rest found others left more hypothesis =>
    exact .ok _ ((more ▸ hypothesis).rest.trans (found ▸ takes_call first lexemes).rest)

theorem takes_definition (lexemes : List Lexeme) : Takes lexemes (definition lexemes) := by
  have named := takes_target lexemes
  rw [definition]
  split
  next mismatch rest failed => exact .error List.suffix_rfl (failed ▸ named)
  next rest ended => exact .ok none (ended ▸ named).rest
  next name rest found =>
    have afterTarget := (found ▸ named).rest
    have received : Takes rest (receiver rest) := takes_expect .identifier .receiverName rest
    split
    next mismatch rest failed => exact .error afterTarget (failed ▸ received)
    next object rest found =>
      have afterReceiver := (found ▸ received).rest.trans afterTarget
      have chained := takes_calls true rest
      split
      next mismatch rest failed => exact .error afterReceiver (failed ▸ chained)
      next chain rest found => exact .ok _ ((found ▸ chained).rest.trans afterReceiver)

end Grammar

/-- The lexemes that a parser has ahead stand in a text, and so does its end. -/
structure Parser.Describes (parser : Parser) (text : List Char) : Prop where
  ahead : ∀ lexeme ∈ parser.ahead, lexeme.StandsIn text
  byteLength : parser.byteLength = Utf8.size text
  charLength : parser.charLength = text.length

/-- What the parser of a text comes to: an exact error, if any, and a parser of the text. -/
structure Parser.Sound {α : Type} (text : List Char) (outcome : Except Error α × Parser) :
    Prop where
  exact : ∀ error, outcome.1 = .error error → error.Exact text
  after : outcome.2.Describes text

namespace Parser

variable {text : List Char} {parser : Parser}

theorem Sound.of_ok {α : Type} {value : α} {after : Parser} (describes : after.Describes text) :
    Sound text (.ok value, after) := by
  refine ⟨fun error failed => ?_, describes⟩
  cases failed

theorem Sound.of_error {α : Type} {error : Error} {after : Parser} (exact : error.Exact text)
    (describes : after.Describes text) : Sound (α := α) text (.error error, after) := by
  refine ⟨?_, describes⟩
  rintro other same
  obtain rfl := Except.error.inj same
  exact exact

/-- Reporting a fault says nothing about the text. -/
theorem faultOr_exact {error : Error} (describes : parser.Describes text)
    (exact : error.Exact text) :
    (faultOr error parser).1.Exact text ∧ (faultOr error parser).2.Describes text := by
  rw [faultOr]
  split
  next fault pending =>
    exact ⟨.transport fault, describes.ahead, describes.byteLength, describes.charLength⟩
  next => exact ⟨exact, describes⟩

theorem report_exact {mismatch : Grammar.Mismatch} (describes : parser.Describes text)
    (found : ∀ lexeme ∈ mismatch.found, lexeme.StandsIn text) :
    (report mismatch parser).1.Exact text ∧ (report mismatch parser).2.Describes text := by
  rw [report]
  split
  next nothing =>
    apply faultOr_exact describes
    rw [describes.byteLength, describes.charLength]
    exact .unexpected (spells_end text) fun _ => ⟨rfl, rfl⟩
  next lexeme blamed =>
    obtain ⟨spelled, proper⟩ := found lexeme blamed
    have illegal : (Error.lexical
        ⟨lexeme.literal, lexeme.byteOffset, lexeme.charOffset⟩).Exact text := .lexical spelled
    split
    · dsimp only
      split
      · exact faultOr_exact describes illegal
      · exact ⟨illegal, describes⟩
    · exact ⟨.unexpected spelled fun same => absurd same proper, describes⟩

theorem settle_sound {α : Type} {outcome : Grammar.Outcome α} (describes : parser.Describes text)
    (takes : Grammar.Takes parser.ahead outcome) : Sound text (settle outcome parser) := by
  obtain ⟨result, rest⟩ := outcome
  have behind : { parser with ahead := rest }.Describes text :=
    ⟨fun lexeme present => describes.ahead lexeme (takes.rest.subset present),
      describes.byteLength, describes.charLength⟩
  cases result with
  | ok value => exact .of_ok behind
  | error mismatch =>
    obtain ⟨exact, after⟩ := report_exact behind fun lexeme blamed =>
      describes.ahead lexeme (takes.found mismatch rfl lexeme blamed)
    exact .of_error exact after

theorem settleOptional_sound {α : Type} {outcome : Grammar.Outcome (Option α)}
    (describes : parser.Describes text) (takes : Grammar.Takes parser.ahead outcome) :
    Sound text (settleOptional outcome parser) := by
  have settled := settle_sound describes takes
  rw [settleOptional]
  split
  next after ended =>
    obtain ⟨ahead, bytes, characters⟩ := (ended ▸ settled).after
    split
    next fault pending => exact .of_error (.transport fault) ⟨ahead, bytes, characters⟩
    next => exact .of_ok ⟨ahead, bytes, characters⟩
  next => exact settled

/-- What a parser can be asked for. -/
inductive Step where
  | target
  | receiver
  | call (first : Bool)
  | arguments
  | definition
  /-- The next of the definitions. -/
  | next
  deriving DecidableEq, Repr

/-- The error of a step that fails. -/
def failure? {α : Type} : Except Error α → Option Error
  | .ok _ => none
  | .error error => some error

/-- The error of a step, if there is one, and the parser that it leaves. -/
def Step.perform : Step → Parser → Option Error × Parser
  | .target, parser => (failure? parser.target.1, parser.target.2)
  | .receiver, parser => (failure? parser.receiver.1, parser.receiver.2)
  | .call first, parser => (failure? (parser.call first).1, (parser.call first).2)
  | .arguments, parser => (failure? parser.arguments.1, parser.arguments.2)
  | .definition, parser => (failure? parser.definition.1, parser.definition.2)
  | .next, parser => (parser.next.1.bind failure?, parser.next.2)

/-- The errors of a sequence of steps, each on the parser that the one before has left. -/
def errors : List Step → Parser → List Error
  | [], _ => []
  | step :: steps, parser =>
    match step.perform parser with
    | (error, after) => error.toList ++ errors steps after

theorem Sound.failure? {α : Type} {outcome : Except Error α × Parser}
    (sound : Sound text outcome) :
    (∀ error ∈ failure? outcome.1, error.Exact text) ∧ outcome.2.Describes text := by
  obtain ⟨result, after⟩ := outcome
  refine ⟨fun error present => ?_, sound.after⟩
  cases result with
  | ok value => cases present
  | error failure =>
    obtain rfl := Option.some.inj present
    exact sound.exact failure rfl

theorem next_sound (describes : parser.Describes text) :
    (∀ error ∈ parser.next.1.bind failure?, error.Exact text) ∧
      parser.next.2.Describes text := by
  have defined := (settleOptional_sound describes (Grammar.takes_definition _)).failure?
  change (∀ error ∈ Parser.failure? parser.definition.1, _) ∧ parser.definition.2.Describes text
    at defined
  rw [next]
  split
  · refine ⟨fun error none => ?_, describes⟩
    cases none
  · generalize parser.definition = outcome at defined
    obtain ⟨result, after⟩ := outcome
    obtain ⟨exact, ahead, bytes, characters⟩ := defined
    cases result with
    | error failure => exact ⟨exact, ahead, bytes, characters⟩
    | ok value => cases value <;> exact ⟨exact, ahead, bytes, characters⟩

/-- Whatever a parser of a text is asked for, its error is exact. -/
theorem Step.perform_sound (step : Step) (describes : parser.Describes text) :
    (∀ error ∈ (step.perform parser).1, error.Exact text) ∧
      (step.perform parser).2.Describes text := by
  cases step with
  | target => exact (settleOptional_sound describes (Grammar.takes_target _)).failure?
  | receiver => exact (settle_sound describes (Grammar.takes_expect _ _ _)).failure?
  | call first => exact (settle_sound describes (Grammar.takes_call first _)).failure?
  | arguments => exact (settle_sound describes (Grammar.takes_arguments _)).failure?
  | definition => exact (settleOptional_sound describes (Grammar.takes_definition _)).failure?
  | next => exact next_sound describes

theorem errors_sound (steps : List Step) (describes : parser.Describes text) :
    ∀ error ∈ errors steps parser, error.Exact text := by
  induction steps generalizing parser with
  | nil =>
    intro error returned
    cases returned
  | cons step steps hypothesis =>
    obtain ⟨exact, after⟩ := step.perform_sound describes
    intro error present
    rcases List.mem_append.1 present with first | later
    · exact exact error (Option.mem_toList.1 first)
    · exact hypothesis after error later

end Parser

/-- An input's parser tells exactly where its characters stand. -/
theorem Input.describes (input : Input) : input.parser.Describes input.characters := by
  have whole {view : View} (fresh : view.token = [] ∧ view.byteStart = 0 ∧ view.charStart = 0) :
      (Parser.ofTranscript view.transcript).Describes view.ahead := by
    obtain ⟨token, bytes, characters⟩ := fresh
    have within : view.Within view.ahead := ⟨[], by rw [token]; rfl, bytes, characters⟩
    obtain ⟨lexemes, byteLength, charLength⟩ := within.transcript
    exact ⟨lexemes, byteLength, charLength⟩
  cases input with
  | text content =>
    have shown := TextSource.ofList_shows content.toList
    show (Parser.ofTranscript _).Describes _
    rw [TextSource.ofString, Transcript.ofSource_eq_transcript shown]
    exact whole ⟨rfl, rfl, rfl⟩
  | bytes reader =>
    have shown := ByteSource.ofReader_shows reader
    show (Parser.ofTranscript _).Describes _
    rw [Transcript.ofSource_eq_transcript shown]
    exact whole ⟨rfl, rfl, rfl⟩

/-- The errors of a parser are exact about their places, in whatever order it is asked. -/
theorem Parser.errors_exact (text : String) (capacity : Nat) (positive : 0 < capacity)
    (ending : Ending) (steps : List Parser.Step) :
    let reader := Reader.ofBytes capacity positive (Utf8.encode text.toList) ending
    let backends : List Input := [.text text, .bytes reader]
    ∀ input ∈ backends, ∀ error ∈ Parser.errors steps input.parser,
      error.Exact text.toList ∧ ∀ label ∈ error.labels, ∃ literal count,
        Spells text.toList label.offset (label.offset + label.length) literal count := by
  intro reader backends input backend error returned
  have delivered : input.characters = text.toList := by
    simp only [backends, List.mem_cons, List.not_mem_nil, or_false] at backend
    rcases backend with rfl | rfl
    · rfl
    · exact congrArg Prod.fst (ByteSource.upcoming_encode rfl 0)
  have exact := Parser.errors_sound steps input.describes error returned
  rw [delivered] at exact
  exact ⟨exact, exact.labels⟩

theorem Parser.errors_exact_accented :
    let text := "é := b € "
    let steps : List Parser.Step := [.target, .definition, .call true, .next, .receiver]
    let reader := Reader.ofBytes 3 (by decide) (Utf8.encode text.toList) .finished
    0 < 3 ∧
      Parser.errors steps (Input.bytes reader).parser =
        [.lexical ⟨"é", 0, 0⟩, .unexpected ⟨.bindingName, .define, ":=", 3, 2⟩,
          .unexpected ⟨.dot, .identifier, "b", 6, 5⟩, .lexical ⟨"€", 8, 7⟩,
          .unexpected ⟨.receiverName, .finish, "", 12, 9⟩] ∧
      ∀ error ∈ Parser.errors steps (Input.bytes reader).parser, error.Exact text.toList :=
  ⟨by decide, by cbv, fun error returned =>
    (Parser.errors_exact _ 3 (by decide) .finished _ _ (by simp) error returned).1⟩

end Fluent
