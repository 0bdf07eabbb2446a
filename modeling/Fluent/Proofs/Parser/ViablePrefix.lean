/-
This file proves that a parser blames the first token that no program goes on with.
-/

import Fluent.Proofs.Lexer.Spacing
import Fluent.Proofs.Parser.Walk
import Fluent.Proofs.Source.Order

namespace Fluent

/-- Whether a text is a program. -/
def Accepts (text : String) : Prop :=
  ∃ program, parse text = .ok program

/-- The tokens of a text without its blanks, of which the end is the last. -/
def tokensToEnd (text : String) : List Token :=
  (Transcript.ofSource (TextSource.ofString text)).tokensToEnd

theorem tokensToEnd_eq (text : String) :
    tokensToEnd text = Lexer.tokens text.toList ++ [⟨.finish, ""⟩] := by
  rw [tokensToEnd, Transcript.tokensToEnd_eq, Transcript.tokens_ofString]

/-- A text is a program exactly if its tokens lead back to the start of a definition. -/
theorem accepts_iff_walk (text : String) :
    Accepts text ↔
      Grammar.Place.start.walk ((Lexer.tokens text.toList).map Token.kind) = some .start := by
  have unbroken : (Parser.ofString text).fault = none := Transcript.fault_ofSource_text _
  have kinds : (Lexer.tokens text.toList).map Token.kind =
      (Parser.ofString text).ahead.map Lexeme.kind := by
    rw [← Transcript.tokens_ofString, Transcript.tokens, List.map_map]
    rfl
  rw [kinds, ← (Parser.ofString text).program_ok_iff_walk rfl unbroken]
  exact Iff.rfl

namespace Grammar

open Lexer (tokens)

/-- The tokens of the definition `a := b.c(0);`. -/
def sample : List Token :=
  [⟨.identifier, "a"⟩, ⟨.define, ":="⟩, ⟨.identifier, "b"⟩, ⟨.dot, "."⟩, ⟨.identifier, "c"⟩,
    ⟨.openParen, "("⟩, ⟨.integer, "0"⟩, ⟨.closeParen, ")"⟩, ⟨.semicolon, ";"⟩]

theorem tokens_sample : tokens "a := b.c(0);".toList = sample := by
  decide +kernel

namespace Place

/-- How many tokens of the sample come before a place. -/
def progress : Place → Nat
  | .start => 0
  | .target => 1
  | .define => 2
  | .receiver => 3
  | .dot => 4
  | .method => 5
  | .opening | .comma => 6
  | .argument => 7
  | .closing => 8

/-- Tokens that lead from a place to the end of a definition. -/
def completion (place : Place) : List Token :=
  sample.drop place.progress

theorem walk_completion (place : Place) :
    place.walk (place.completion.map Token.kind) = some .start := by
  cases place <;> rfl

theorem next_finish (place : Place) : place.next .finish = none := by
  cases place <;> rfl

variable {sequence : List Token} {last : Place}

/-- Tokens that lead anywhere begin a program. -/
theorem exists_accepts (walked : start.walk (sequence.map Token.kind) = some last)
    (alone : ∀ token ∈ sequence, tokens token.literal.toList = [token]) :
    ∃ text, Accepts text ∧ sequence <+: tokensToEnd text := by
  have through : start.walk ((sequence ++ last.completion).map Token.kind) = some .start := by
    rw [List.map_append, walk_append, walked]
    exact last.walk_completion
  have legal : ∀ token ∈ sequence ++ last.completion, token.kind ≠ .illegal := fun token present =>
    ne_illegal_of_walk through token.kind (List.mem_map_of_mem present)
  have spelled : ∀ token ∈ sequence ++ last.completion, tokens token.literal.toList = [token] := by
    intro token present
    rcases List.mem_append.1 present with before | added
    · exact alone token before
    · have sampled : token ∈ sample := List.mem_of_mem_drop added
      rw [← tokens_sample] at sampled
      exact Lexer.tokens_literal sampled
  have read := Lexer.tokens_spaced spelled legal
  refine ⟨String.ofList (Lexer.spaced (sequence ++ last.completion)), ?_, ?_⟩
  · rw [accepts_iff_walk, String.toList_ofList, read]
    exact through
  · rw [tokensToEnd_eq, String.toList_ofList, read, List.append_assoc]
    exact List.prefix_append _ _

/-- No program goes on with a token that does not fit, nor ends within a definition. -/
theorem not_accepts {token : Token} (walked : start.walk (sequence.map Token.kind) = some last)
    (misfit : last.next token.kind = none) (going : token.kind = .finish → last ≠ .start) :
    ¬ ∃ text, Accepts text ∧ sequence ++ [token] <+: tokensToEnd text := by
  rintro ⟨text, accepted, rest, split⟩
  rw [accepts_iff_walk] at accepted
  rw [tokensToEnd_eq] at split
  rcases List.eq_nil_or_concat rest with rfl | ⟨before, finish, rfl⟩
  · rw [List.append_nil] at split
    obtain ⟨whole, same⟩ := List.append_inj' split rfl
    cases same
    rw [← whole, walked, Option.some.injEq] at accepted
    exact going rfl accepted
  · rw [List.concat_eq_append, ← List.append_assoc] at split
    obtain ⟨whole, -⟩ := List.append_inj' split rfl
    rw [← whole, List.append_assoc, List.map_append, walk_append, walked] at accepted
    change (last.next token.kind).bind _ = some start at accepted
    rw [misfit] at accepted
    cases accepted

end Place

end Grammar

/-- An error tells a lexeme's text and place, and its kind unless that is illegal. -/
def Error.Names (error : Error) (lexeme : Lexeme) : Prop :=
  match error with
  | .lexical token => token = ⟨lexeme.literal, lexeme.byteOffset, lexeme.charOffset⟩
  | .unexpected token =>
    token = ⟨token.expected, lexeme.kind, lexeme.literal, lexeme.byteOffset, lexeme.charOffset⟩
  | .receiverNotFound _ _ | .dispatch _ _ _ | .marshal _ _ | .transport _ => False

theorem Error.Names.byteOffset_eq {error : Error} {first second : Lexeme}
    (one : error.Names first) (other : error.Names second) :
    first.byteOffset = second.byteOffset := by
  cases error with
  | lexical token =>
    exact (congrArg IllegalToken.byteOffset one).symm.trans (congrArg IllegalToken.byteOffset other)
  | unexpected token =>
    exact (congrArg UnexpectedToken.byteOffset one).symm.trans
      (congrArg UnexpectedToken.byteOffset other)
  | receiverNotFound | dispatch | marshal | transport => exact one.elim

/-- Without a fault, an error names what was met, and is lexical exactly if that is illegal. -/
theorem Transcript.names_report (transcript : Transcript) (unbroken : transcript.fault = none)
    (mismatch : Grammar.Mismatch) :
    let error := ((Parser.ofTranscript transcript).report mismatch).1
    let lexeme := mismatch.found.getD transcript.finish
    error.Names lexeme ∧ ((∃ token, error = .lexical token) ↔ lexeme.kind = .illegal) := by
  have sound : (Parser.ofTranscript transcript).fault = none := unbroken
  obtain ⟨expected, _ | lexeme⟩ := mismatch
  · rw [Parser.report_of_end, Parser.faultOr_of_unbroken sound]
    exact ⟨rfl, by simp [Transcript.finish]⟩
  · by_cases illegal : lexeme.kind = .illegal
    · rw [Parser.report_of_illegal illegal, Parser.faultOr_of_unbroken sound, ite_self]
      exact ⟨rfl, by simp [illegal]⟩
    · rw [Parser.report_of_legal illegal]
      exact ⟨rfl, by simp [illegal]⟩

/-- Where parsing fails, the error names a lexeme that does not fit behind those before it. -/
theorem exists_misfit {text : String} {error : Error} (failed : parse text = .error error) :
    let transcript := Transcript.ofSource (TextSource.ofString text)
    ∃ (before : List Lexeme) (lexeme : Lexeme) (after : List Lexeme) (last : Grammar.Place),
      transcript.lexemesToEnd = before ++ lexeme :: after ∧ before ⊆ transcript.lexemes ∧
      Grammar.Place.start.walk (before.map Lexeme.kind) = some last ∧
      last.next lexeme.kind = none ∧ (lexeme.kind = .finish → last ≠ .start) ∧
      error.Names lexeme ∧ ((∃ token, error = .lexical token) ↔ lexeme.kind = .illegal) := by
  intro transcript
  have unbroken : transcript.fault = none := Transcript.fault_ofSource_text _
  have ended := ((Parser.ofString text).program_eq_error_iff error).1 failed
  rw [(Parser.ofString text).error_definitions rfl] at ended
  rw [show (Parser.ofString text).ahead = transcript.lexemes from rfl,
    show (Parser.ofString text).fault = transcript.fault from rfl] at ended
  cases stopped : Grammar.stop .start transcript.lexemes with
  | none =>
    rw [stopped, unbroken] at ended
    cases ended
  | some mismatch =>
    rw [stopped, Option.some.injEq] at ended
    change ((Parser.ofTranscript transcript).report mismatch).1 = error at ended
    obtain ⟨names, lexical⟩ := transcript.names_report unbroken mismatch
    rw [ended] at names lexical
    obtain ⟨used, left, last, split, walked, -, misfit, finished⟩ := Grammar.exists_of_stop stopped
    obtain ⟨expected, _ | lexeme⟩ := mismatch
    · obtain ⟨rfl, going⟩ := finished rfl
      rw [Option.toList_none, List.append_nil, List.append_nil] at split
      refine ⟨used, transcript.finish, [], last, ?_, split ▸ List.Subset.refl _, walked,
        last.next_finish, fun _ => going, names, lexical⟩
      rw [Transcript.lexemesToEnd, split]
    · have present : lexeme ∈ transcript.lexemes := by simp [split]
      have token : lexeme.token ∈ Lexer.tokens text.toList := by
        rw [← Transcript.tokens_ofString]
        exact List.mem_map_of_mem present
      refine ⟨used, lexeme, left ++ [transcript.finish], last, ?_, ?_, walked, misfit lexeme rfl,
        fun finish => absurd finish (Lexer.kind_of_mem_tokens token).2, names, lexical⟩
      · simp [Transcript.lexemesToEnd, split]
      · exact split ▸ List.subset_append_left _ _

/-- An error names the first token that no program goes on with. -/
theorem parse_error_at_first_misfit (text : String) (error : Error)
    (failed : parse text = .error error) :
    let lexemes := (Transcript.ofSource (TextSource.ofString text)).lexemesToEnd
    (∃ lexeme ∈ lexemes, error.Names lexeme) ∧
      ∀ before lexeme after, lexemes = before ++ lexeme :: after → error.Names lexeme →
        (∃ accepted, Accepts accepted ∧ before.map Lexeme.token <+: tokensToEnd accepted) ∧
        (¬ ∃ accepted, Accepts accepted ∧
          (before ++ [lexeme]).map Lexeme.token <+: tokensToEnd accepted) ∧
        ((∃ token, error = .lexical token) ↔ lexeme.kind = .illegal) := by
  intro lexemes
  obtain ⟨before, lexeme, after, last, split, part, walked, misfit, going, names, lexical⟩ :=
    exists_misfit failed
  refine ⟨⟨lexeme, by simp [lexemes, split], names⟩, ?_⟩
  intro otherBefore other otherAfter otherSplit otherNames
  have ordered : Lexeme.Ordered lexemes := Transcript.ordered_ofString text
  have same : before ++ lexeme :: after = otherBefore ++ other :: otherAfter :=
    split.symm.trans otherSplit
  rw [show lexemes = before ++ lexeme :: after from split] at ordered
  obtain ⟨rfl, rfl, rfl⟩ := ordered.split_unique same (names.byteOffset_eq otherNames)
  have kinds : (before.map Lexeme.token).map Token.kind = before.map Lexeme.kind := by
    rw [List.map_map]
    rfl
  rw [← kinds] at walked
  refine ⟨?_, ?_, lexical⟩
  · apply Grammar.Place.exists_accepts walked
    intro token present
    have among : token ∈ Lexer.tokens text.toList := by
      rw [← Transcript.tokens_ofString]
      exact List.map_subset _ part present
    exact Lexer.tokens_literal among
  · rw [List.map_append]
    exact Grammar.Place.not_accepts walked misfit going

theorem parse_error_at_first_misfit_trailing_comma :
    let error := Error.unexpected ⟨.argument, .closeParen, ")", 12, 12⟩
    let before : List Token := [⟨.identifier, "a"⟩, ⟨.define, ":="⟩, ⟨.identifier, "b"⟩,
      ⟨.dot, "."⟩, ⟨.identifier, "c"⟩, ⟨.openParen, "("⟩, ⟨.integer, "1"⟩, ⟨.comma, ","⟩]
    parse "a := b.c(1, );" = .error error ∧
      (∃ accepted, Accepts accepted ∧ before <+: tokensToEnd accepted) ∧
      ¬ ∃ accepted, Accepts accepted ∧ before ++ [⟨.closeParen, ")"⟩] <+: tokensToEnd accepted := by
  intro error before
  have failed : parse "a := b.c(1, );" = .error error := by
    apply ((Parser.ofString _).program_eq_error_iff error).2
    rw [Parser.error_definitions _ rfl]
    decide +kernel
  have split : (Transcript.ofSource (TextSource.ofString "a := b.c(1, );")).lexemesToEnd =
      [⟨.identifier, "a", 0, 0, false⟩, ⟨.define, ":=", 2, 2, false⟩,
        ⟨.identifier, "b", 5, 5, false⟩, ⟨.dot, ".", 6, 6, false⟩, ⟨.identifier, "c", 7, 7, false⟩,
        ⟨.openParen, "(", 8, 8, false⟩, ⟨.integer, "1", 9, 9, false⟩, ⟨.comma, ",", 10, 10, false⟩]
      ++ ⟨.closeParen, ")", 12, 12, false⟩ ::
        [⟨.semicolon, ";", 13, 13, false⟩, ⟨.finish, "", 14, 14, false⟩] := by decide +kernel
  obtain ⟨begins, rejected, -⟩ := (parse_error_at_first_misfit _ error failed).2 _ _ _ split rfl
  exact ⟨failed, begins, rejected⟩

end Fluent
