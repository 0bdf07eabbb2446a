/-
This file proves that parsing goes along with concatenation.
-/

import Fluent.Proofs.Parser.ViablePrefix
import Fluent.Proofs.Source.Extension
import Fluent.Proofs.Source.Places
import Fluent.Proofs.Source.Shift
import Mathlib.Data.List.TakeWhile

namespace Fluent

/-- The error with another text before its own. -/
def Error.shift (bytes characters : Nat) : Error → Error
  | .lexical token =>
    .lexical { token with
      byteOffset := token.byteOffset + bytes
      charOffset := token.charOffset + characters }
  | .unexpected token =>
    .unexpected { token with
      byteOffset := token.byteOffset + bytes
      charOffset := token.charOffset + characters }
  | other => other

/-- What is derived from tokens one behind the other is put together. -/
theorem Program.Derived.append {tokens others : List Token} {first second : Program}
    (derived : Program.Derived tokens first) (later : Program.Derived others second) :
    Program.Derived (tokens ++ others) ⟨first.definitions ++ second.definitions⟩ := by
  induction derived with
  | nil => exact later
  | cons one _ hypothesis =>
    rw [List.append_assoc]
    exact .cons one hypothesis

namespace Grammar

/-- A definition that is complete ends with its semicolon. -/
theorem Place.eq_semicolon_of_walk {place : Place} {kinds : List Kind} {kind : Kind}
    (walked : place.walk (kinds ++ [kind]) = some .start) : kind = .semicolon := by
  rw [walk_append, Option.bind_eq_some_iff] at walked
  obtain ⟨last, -, stepped⟩ := walked
  cases last <;> cases kind <;> first | rfl | cases stepped

def Mismatch.shift (bytes characters : Nat) (mismatch : Mismatch) : Mismatch :=
  ⟨mismatch.expected, mismatch.found.map (Lexeme.shift bytes characters)⟩

/-- A walk does not depend on where its lexemes stand. -/
theorem stop_shift (bytes characters : Nat) (place : Place) (lexemes : List Lexeme) :
    stop place (lexemes.map (Lexeme.shift bytes characters)) =
      (stop place lexemes).map (Mismatch.shift bytes characters) := by
  induction lexemes generalizing place with
  | nil =>
    rw [List.map_nil, stop]
    split <;> rfl
  | cons lexeme rest hypothesis =>
    have kind : (lexeme.shift bytes characters).kind = lexeme.kind := rfl
    rw [List.map_cons, stop, stop, kind]
    cases place.next lexeme.kind with
    | none => rfl
    | some next => exact hypothesis next

end Grammar

/-- What is blamed stands further on where the input does. -/
theorem Parser.report_shift {bytes characters : Nat} {parser moved : Parser}
    (byteLength : moved.byteLength = parser.byteLength + bytes)
    (charLength : moved.charLength = parser.charLength + characters)
    (fault : moved.fault = parser.fault) (mismatch : Grammar.Mismatch) :
    (moved.report (mismatch.shift bytes characters)).1 =
      (parser.report mismatch).1.shift bytes characters := by
  have faultOr (error : Error) :
      (moved.faultOr (error.shift bytes characters)).1 =
        (parser.faultOr error).1.shift bytes characters := by
    rw [Parser.faultOr, Parser.faultOr, fault]
    cases parser.fault <;> rfl
  obtain ⟨expected, _ | lexeme⟩ := mismatch
  · have ended := faultOr
      (.unexpected ⟨expected, .finish, "", parser.byteLength, parser.charLength⟩)
    rwa [Error.shift, ← byteLength, ← charLength] at ended
  · rw [Grammar.Mismatch.shift, Option.map_some]
    by_cases illegal : lexeme.kind = .illegal
    · have illegalMoved : (lexeme.shift bytes characters).kind = .illegal := illegal
      rw [report_of_illegal illegal, report_of_illegal illegalMoved, apply_ite (Error.shift _ _),
        ← faultOr]
      rfl
    · have legalMoved : (lexeme.shift bytes characters).kind ≠ .illegal := illegal
      rw [report_of_legal illegal, report_of_legal legalMoved]
      rfl

/-- Only blanks are left of an input with nothing but a closing lexeme and one token ahead. -/
theorem View.blank_of_ended {view : View}
    (ended : view.ahead = [] ∨ (Lexer.readToken view.ahead).ended = true)
    (closed : ∀ lexeme ∈ view.transcript.lexemes.getLast?, lexeme.isClosing) :
    view.transcript.lexemes = [] ∧ ∀ character ∈ view.ahead, isBlank character := by
  cases ahead : view.ahead with
  | nil =>
    rw [transcript_of_nil ahead]
    exact ⟨rfl, nofun⟩
  | cons character rest =>
    have met : (Lexer.readToken (character :: rest)).ended = true := by
      rw [← ahead]
      exact ended.resolve_left (by rw [ahead]; exact List.cons_ne_nil _ _)
    obtain ⟨nothing, plain, -⟩ := Lexer.readToken_of_ended met []
    rw [← ahead] at nothing plain
    have behind : view.afterToken.transcript.lexemes = [] := by
      rw [transcript_of_nil (show view.afterToken.ahead = [] from nothing)]
    by_cases blank : (Lexer.readToken view.ahead).kind = .blank
    · have all := (Lexer.readToken_of_kind_blank blank).2
      rw [nothing, ahead] at all
      rw [transcript_of_blank blank]
      exact ⟨behind, List.dropWhile_eq_nil_iff.1 all.symm⟩
    · rw [transcript_of_proper ahead blank, behind] at closed
      have closing : (Lexer.readToken view.ahead).kind.isClosing = true := closed _ rfl
      rw [plain] at closing
      cases closing

/-- Behind a program, a text has the lexemes that it has alone. -/
theorem Transcript.ofSource_append {first : String} (accepted : Accepts first) (second : String) :
    let one := Transcript.ofSource (TextSource.ofString first)
    let other := Transcript.ofSource (TextSource.ofString second)
    let moved := other.shift first.utf8ByteSize first.length
    Transcript.ofSource (TextSource.ofString (first ++ second)) =
      { moved with lexemes := one.lexemes ++ moved.lexemes } := by
  intro one other moved
  have shown (text : List Char) : Transcript.ofSource (TextSource.ofList text) =
      (View.ofText text).transcript :=
    Transcript.ofSource_eq_transcript (TextSource.ofList_shows text)
  have views : View.Extends second.toList (View.ofText first.toList)
      (View.ofText (first ++ second).toList) :=
    ⟨rfl, rfl, rfl, String.toList_append, nofun, nofun⟩
  obtain ⟨common, near, far, seam, -, farTail, ⟨bytes, characters⟩, before, beforeLong, ended⟩ :=
    views.exists_seam
  have oneEq : one = { near.transcript with lexemes := common ++ near.transcript.lexemes } :=
    (shown _).trans before
  have walked : Grammar.Place.start.walk (one.lexemes.map Lexeme.kind) = some .start := by
    have unbroken : (Parser.ofString first).fault = none := Transcript.fault_ofSource_text _
    exact ((Parser.ofString first).program_ok_iff_walk rfl unbroken).1 accepted
  have closed : ∀ lexeme ∈ near.transcript.lexemes.getLast?, lexeme.isClosing := by
    intro lexeme final
    obtain ⟨others, split⟩ := List.getLast?_eq_some_iff.1 final
    rw [oneEq, split, ← List.append_assoc, List.map_append] at walked
    rw [Lexeme.isClosing, Grammar.Place.eq_semicolon_of_walk walked]
    rfl
  obtain ⟨nothing, blank⟩ := View.blank_of_ended ended closed
  have start : (View.ofText first.toList).startToken.byteStart +
      Utf8.size (View.ofText first.toList).ahead = first.utf8ByteSize :=
    (Nat.zero_add _).trans (Utf8.size_toList first)
  have count : (View.ofText first.toList).startToken.charStart +
      (View.ofText first.toList).ahead.length = first.length :=
    (Nat.zero_add _).trans String.length_toList
  rw [start, seam.byteStart_startToken] at bytes
  rw [count, seam.charStart_startToken] at characters
  have later : far.transcript = moved := by
    have behind : far.transcript =
        (View.ofText second.toList).transcript.shift first.utf8ByteSize first.length :=
      View.transcript_of_blanks blank seam.ahead (bytes.trans (Nat.zero_add _).symm)
        (characters.trans (Nat.zero_add _).symm) rfl farTail
    rwa [← shown] at behind
  refine (shown _).trans (beforeLong.trans ?_)
  rw [later, oneEq, nothing, List.append_nil]

theorem parse_append_of_parsed {first second : String} {program other : Program}
    (parsed : parse first = .ok program) (parsedOther : parse second = .ok other) :
    parse (first ++ second) = .ok ⟨program.definitions ++ other.definitions⟩ := by
  have whole := Transcript.ofSource_append ⟨program, parsed⟩ second
  rw [parse_eq_ok_iff] at parsed parsedOther ⊢
  have derived := parsed.append parsedOther
  have split : (Transcript.ofSource (TextSource.ofString (first ++ second))).tokens =
      (Transcript.ofSource (TextSource.ofString first)).tokens ++
        (Transcript.ofSource (TextSource.ofString second)).tokens := by
    rw [whole, ← Transcript.tokens_shift first.utf8ByteSize first.length
      (Transcript.ofSource (TextSource.ofString second))]
    exact List.map_append
  rwa [split]

/-- A program behind a program adds its definitions, and an error moves by the first's length. -/
theorem parse_append (first second : String) (program : Program)
    (parsed : parse first = .ok program) :
    (∀ other, parse second = .ok other →
        parse (first ++ second) = .ok ⟨program.definitions ++ other.definitions⟩) ∧
      ∀ error, parse second = .error error →
        parse (first ++ second) = .error (error.shift first.utf8ByteSize first.length) := by
  have whole := Transcript.ofSource_append ⟨program, parsed⟩ second
  constructor
  · exact fun other parsedOther => parse_append_of_parsed parsed parsedOther
  · intro error failed
    have ahead : (Parser.ofString (first ++ second)).ahead = (Parser.ofString first).ahead ++
        (Parser.ofString second).ahead.map (Lexeme.shift first.utf8ByteSize first.length) :=
      congrArg Transcript.lexemes whole
    have walked := ((Parser.ofString first).program_ok_iff_walk rfl
      (Transcript.fault_ofSource_text _)).1 ⟨program, parsed⟩
    have alone := ((Parser.ofString second).program_eq_error_iff error).1 failed
    apply ((Parser.ofString (first ++ second)).program_eq_error_iff _).2
    rw [Parser.error_definitions _ rfl] at alone ⊢
    rw [ahead, Grammar.stop_append_of_walk walked, Grammar.stop_shift]
    cases stopped : Grammar.stop .start (Parser.ofString second).ahead with
    | none =>
      rw [stopped, show (Parser.ofString second).fault = none from
        Transcript.fault_ofSource_text _] at alone
      cases alone
    | some mismatch =>
      rw [stopped, Option.some.injEq] at alone
      have reported :
          ((Parser.ofString (first ++ second)).report
              (mismatch.shift first.utf8ByteSize first.length)).1 =
            ((Parser.ofString second).report mismatch).1.shift first.utf8ByteSize first.length :=
        Parser.report_shift (congrArg Transcript.byteLength whole)
          (congrArg Transcript.charLength whole) (congrArg Transcript.fault whole) mismatch
      rw [alone] at reported
      exact congrArg some reported

theorem parse_append_wide_blank :
    let first := "a := b.c();\u2003"
    let program : Program := ⟨[⟨"a", "b", [⟨"c", []⟩]⟩]⟩
    parse first = .ok program ∧
      parse (first ++ first) = .ok ⟨program.definitions ++ program.definitions⟩ ∧
      parse "\n d;" = .error (.unexpected ⟨.define, .semicolon, ";", 3, 3⟩) ∧
      parse (first ++ "\n d;") = .error (.unexpected ⟨.define, .semicolon, ";", 17, 15⟩) := by
  intro first program
  have parsed : parse first = .ok program := by
    have tokens : Lexer.tokens first.toList =
        [⟨.identifier, "a"⟩, ⟨.define, ":="⟩, ⟨.identifier, "b"⟩, ⟨.dot, "."⟩, ⟨.identifier, "c"⟩,
          ⟨.openParen, "("⟩, ⟨.closeParen, ")"⟩, ⟨.semicolon, ";"⟩] := by decide +kernel
    have call : Call.Derived (⟨.dot, "."⟩ :: ⟨.identifier, "c"⟩ :: ⟨.openParen, "("⟩ ::
        ([] ++ [⟨.closeParen, ")"⟩])) ⟨"c", []⟩ := .call rfl rfl rfl .none rfl
    have definition : Definition.Derived (⟨.identifier, "a"⟩ :: ⟨.define, ":="⟩ ::
        ⟨.identifier, "b"⟩ :: (_ ++ [⟨.semicolon, ";"⟩])) ⟨"a", "b", [⟨"c", []⟩]⟩ :=
      .definition rfl rfl rfl (.cons call .nil) (List.cons_ne_nil _ _) rfl
    rw [parse_eq_ok_iff, Transcript.tokens_ofString, tokens]
    exact .cons definition .nil
  have failed : parse "\n d;" = .error (.unexpected ⟨.define, .semicolon, ";", 3, 3⟩) := by
    apply ((Parser.ofString _).program_eq_error_iff _).2
    rw [Parser.error_definitions _ rfl]
    decide +kernel
  have moved := (parse_append first "\n d;" program parsed).2 _ failed
  rw [show first.utf8ByteSize = 14 by decide, show first.length = 12 by decide] at moved
  exact ⟨parsed, (parse_append first first program parsed).1 program parsed, failed, moved⟩

end Fluent
