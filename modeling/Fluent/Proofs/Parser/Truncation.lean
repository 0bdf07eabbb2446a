/-
This file holds what a parser makes of a text whose reader fails behind the first bytes.
-/

import Fluent.Proofs.Parser.ViablePrefix
import Fluent.Proofs.Source.Places

namespace Fluent

/-- A token is the front of a word or a number that goes on behind the first `count` bytes. -/
structure UnexpectedToken.CutFrom (token : UnexpectedToken) (lexeme : Lexeme) (count : Nat) :
    Prop where
  kind : token.found ∈ [.identifier, .trueWord, .falseWord, .nullWord, .integer, .float]
  byteOffset : token.byteOffset = lexeme.byteOffset
  charOffset : token.charOffset = lexeme.charOffset
  literal : token.literal.toList <+: lexeme.literal.toList
  arrived : token.byteOffset + token.literal.utf8ByteSize ≤ count
  missing : count < lexeme.byteEnd

/-- A lexeme among the first `count` bytes meets the cut, and the token may lack something. -/
structure Lexeme.ArrivedOf (count : Nat) (front lexeme : Lexeme) : Prop where
  kind : front.kind ∈
    [.illegal, .identifier, .trueWord, .falseWord, .nullWord, .integer, .float]
  byteOffset : front.byteOffset = lexeme.byteOffset
  charOffset : front.charOffset = lexeme.charOffset
  literal : front.literal.toList <+: lexeme.literal.toList
  cut : front.cut = true
  arrived : front.byteEnd ≤ count
  rest : front.token = lexeme.token ∨ count < lexeme.byteEnd

namespace Parser

section

variable {parser : Parser} {fault : Fault}

/-- A parser with a fault ends in an error, where its walk stops or at the end. -/
theorem program_of_fault (going : parser.done = false) (broken : parser.fault = some fault) :
    parser.program.1 = .error
      (match Grammar.stop .start parser.ahead with
        | some mismatch => (parser.report mismatch).1
        | none => .transport fault) := by
  rw [program_eq_error_iff, error_definitions _ going, broken]
  cases Grammar.stop .start parser.ahead <;> rfl

/-- The end of an input is blamed on the fault that has brought it about. -/
theorem error_at_end (broken : parser.fault = some fault) (place : Grammar.Place) :
    (match Grammar.stop place [] with
      | some mismatch => (parser.report mismatch).1
      | none => .transport fault) = .transport fault := by
  rw [Grammar.stop]
  split
  next mismatch stopped =>
    split at stopped
    · cases stopped
    · cases stopped
      exact faultOr_of_fault broken _
  next => rfl

/-- A lexeme is blamed with a fault as without, unless the fault is blamed. -/
theorem report_of_fault {whole : Parser} (broken : parser.fault = some fault)
    (unbroken : whole.fault = none) (expected : Expectation) (lexeme : Lexeme) :
    (parser.report ⟨expected, some lexeme⟩).1 = .transport fault ∨
      (parser.report ⟨expected, some lexeme⟩).1 = (whole.report ⟨expected, some lexeme⟩).1 := by
  by_cases illegal : lexeme.kind = .illegal
  · rw [report_of_illegal illegal, report_of_illegal illegal, faultOr_of_fault broken,
      faultOr_of_unbroken unbroken]
    split
    · exact .inl rfl
    · exact .inr rfl
  · exact .inr (by rw [report_of_legal illegal, report_of_legal illegal])

end

theorem parse_of_stop {text : String} {mismatch : Grammar.Mismatch}
    (stopped : Grammar.stop .start (ofString text).ahead = some mismatch) :
    parse text = .error ((ofString text).report mismatch).1 := by
  apply ((ofString text).program_eq_error_iff _).2
  rw [error_definitions _ rfl, stopped]

/-- No text is blamed for a token of which it has more. -/
theorem parse_ne_of_cutFrom {text : String} {token : UnexpectedToken} {lexeme : Lexeme}
    {count : Nat} (present : lexeme ∈ (Transcript.ofSource (TextSource.ofString text)).lexemes)
    (cut : token.CutFrom lexeme count) : parse text ≠ .error (.unexpected token) := by
  intro failed
  obtain ⟨before, found, after, -, split, -, -, -, -, names, -⟩ := exists_misfit failed
  have byteOffset : token.byteOffset = found.byteOffset := congrArg UnexpectedToken.byteOffset names
  have literal : token.literal = found.literal := congrArg UnexpectedToken.literal names
  obtain rfl : found = lexeme := by
    apply (Transcript.ordered_ofString text).eq_of_byteOffset
    · simp [split]
    · exact List.mem_append_left _ present
    · exact byteOffset.symm.trans cut.byteOffset
  have arrived := cut.arrived
  have missing := cut.missing
  rw [Lexeme.byteEnd, ← literal, ← byteOffset, Utf8.size_toList] at missing
  omega

/-- Ahead are the lexemes of the text up to a place, and at most the front of the next one. -/
theorem exists_front_of_cut (text : String) (capacity : Nat) (positive : 0 < capacity)
    (count : Nat) (fault : Fault) :
    let cut := ofSource (ByteSource.ofReader (Reader.ofBytes capacity positive
      ((Utf8.encode text.toList).take count) (.failing fault)))
    cut.fault = some fault ∧ ∃ common rest, (ofString text).ahead = common ++ rest ∧
      (cut.ahead = common ∨ ∃ front lexeme later, cut.ahead = common ++ [front] ∧
        rest = lexeme :: later ∧ front.ArrivedOf count lexeme) := by
  obtain ⟨arrived, missing, cut, views, same, sameWhole, all, enough, short⟩ :=
    exists_cut text capacity positive count fault
  obtain ⟨common, near, far, seam, place, before, beforeWhole, ended⟩ := views.exists_seam
  rw [same, sameWhole]
  refine ⟨View.fault_transcript (by rw [views.broken]; rfl), common, far.transcript.lexemes,
    congrArg Transcript.lexemes beforeWhole, ?_⟩
  have ahead : (ofTranscript cut.transcript).ahead = common ++ near.transcript.lexemes :=
    congrArg Transcript.lexemes before
  rw [ahead]
  rcases seam.lexemes_of_ended ended with
    nothing | ⟨front, lexeme, later, only, first, part, byteEnd, met, kinds⟩
  · rw [nothing, List.append_nil]
    exact .inl rfl
  · have final : front.byteEnd = Utf8.size arrived := byteEnd.trans (place.trans all)
    have rest : front.token = lexeme.token ∨ count < lexeme.byteEnd := by
      rcases part.rest with alike | ⟨character, behind, longer⟩
      · exact .inl alike
      · have shorter := short character behind
        right
        omega
    exact .inr ⟨front, lexeme, later, by rw [only], first, kinds, part.byteOffset,
      part.charOffset, part.literal, met, final.trans_le enough, rest⟩

/-- The front of a misfit is no error of its own, unless it is of a word or a number. -/
theorem report_of_front {parser : Parser} {fault : Fault} {text : String} {count : Nat}
    {common rest : List Lexeme} {front lexeme : Lexeme} {last : Grammar.Place}
    (broken : parser.fault = some fault) (part : front.ArrivedOf count lexeme)
    (ahead : (ofString text).ahead = common ++ lexeme :: rest)
    (walked : Grammar.Place.start.walk (common.map Lexeme.kind) = some last)
    (misfits : last.next front.kind = none) :
    let error := (parser.report ⟨last.expectation, some front⟩).1
    error = .transport fault ∨ parse text = .error error ∨
      ∃ token, error = .unexpected token ∧ token.CutFrom lexeme count := by
  by_cases illegal : front.kind = .illegal
  · rw [report_of_illegal illegal, if_pos part.cut]
    exact .inl (faultOr_of_fault broken _)
  · rw [report_of_legal illegal]
    right
    rcases part.rest with same | missing
    · left
      have kind : lexeme.kind = front.kind := congrArg Token.kind same.symm
      have literal : lexeme.literal = front.literal := congrArg Token.literal same.symm
      have stopped : Grammar.stop .start (ofString text).ahead =
          some ⟨last.expectation, some lexeme⟩ := by
        rw [ahead, Grammar.stop_append_of_walk walked, Grammar.stop_cons_of_misfit (kind ▸ misfits)]
      rw [parse_of_stop stopped, report_of_legal (kind ▸ illegal), kind, literal,
        part.byteOffset, part.charOffset]
    · right
      have arrived := part.arrived
      rw [Lexeme.byteEnd, Utf8.size_toList] at arrived
      exact ⟨_, rfl, (List.mem_cons.1 part.kind).resolve_left illegal, part.byteOffset,
        part.charOffset, part.literal, arrived, missing⟩

/-- The error of a cut text is the reader's or the whole text's, or blames a word's front. -/
theorem error_of_cut (text : String) (capacity : Nat) (positive : 0 < capacity) (count : Nat)
    (fault : Fault) :
    let cut := ofSource (ByteSource.ofReader (Reader.ofBytes capacity positive
      ((Utf8.encode text.toList).take count) (.failing fault)))
    ∃ error, cut.program.1 = .error error ∧
      (error = .transport fault ∨ parse text = .error error ∨
        ∃ token lexeme, error = .unexpected token ∧
          lexeme ∈ (Transcript.ofSource (TextSource.ofString text)).lexemes ∧
          token.CutFrom lexeme count ∧ parse text ≠ .error error) := by
  intro cut
  obtain ⟨broken, common, rest, aheadWhole, arrived⟩ :=
    exists_front_of_cut text capacity positive count fault
  have unbroken : (ofString text).fault = none := Transcript.fault_ofSource_text _
  refine ⟨_, program_of_fault rfl broken, ?_⟩
  cases walked : Grammar.Place.start.walk (common.map Lexeme.kind) with
  | none =>
    obtain ⟨last, lexeme, -, -, stops⟩ := Grammar.exists_stop_of_walk_eq_none walked
    have failed := parse_of_stop (aheadWhole ▸ stops rest)
    obtain ⟨extra, aheadCut⟩ : ∃ extra, cut.ahead = common ++ extra := by
      rcases arrived with nothing | ⟨front, -, -, only, -⟩
      · exact ⟨[], by rw [List.append_nil]; exact nothing⟩
      · exact ⟨[front], only⟩
    rw [aheadCut, stops]
    rcases report_of_fault broken unbroken last.expectation lexeme with faulty | same
    · exact .inl faulty
    · exact .inr (.inl (failed.trans (congrArg Except.error same.symm)))
  | some last =>
    rcases arrived with nothing | ⟨front, lexeme, later, only, rfl, part⟩
    · rw [nothing, ← List.append_nil common, Grammar.stop_append_of_walk walked]
      exact .inl (error_at_end broken last)
    · rw [only, Grammar.stop_append_of_walk walked]
      cases fits : last.next front.kind with
      | some next =>
        rw [Grammar.stop_cons_of_next fits]
        exact .inl (error_at_end broken next)
      | none =>
        rw [Grammar.stop_cons_of_misfit fits]
        rcases report_of_front broken part aheadWhole walked fits with
          faulty | same | ⟨token, blamed, short⟩
        · exact .inl faulty
        · exact .inr (.inl same)
        · have present : lexeme ∈ (Transcript.ofSource (TextSource.ofString text)).lexemes := by
            show lexeme ∈ (ofString text).ahead
            rw [aheadWhole]
            exact List.mem_append_right _ List.mem_cons_self
          refine .inr (.inr ⟨token, lexeme, blamed, present, short, ?_⟩)
          dsimp only
          rw [blamed]
          exact parse_ne_of_cutFrom present short

theorem program_cut_in_word :
    (ofSource (ByteSource.ofReader (Reader.ofBytes 5 (by decide)
      ((Utf8.encode "a := b.c(true);".toList).take 12)
      (.failing (.device "read failed"))))).program.1 =
        .error (.unexpected ⟨.argument, .identifier, "tru", 9, 9⟩) := by
  rw [program_eq_error_iff, error_definitions _ rfl]
  decide +kernel

theorem error_of_cut_in_word :
    let text := "a := b.c(true);"
    0 < 5 ∧ ∃ lexeme ∈ (Transcript.ofSource (TextSource.ofString text)).lexemes,
      UnexpectedToken.CutFrom ⟨.argument, .identifier, "tru", 9, 9⟩ lexeme 12 := by
  intro text
  have accepted : Accepts text := (accepts_iff_walk text).2 (by decide +kernel)
  obtain ⟨program, parsed⟩ := accepted
  obtain ⟨error, failed, blamed⟩ :=
    error_of_cut text 5 (by decide) 12 (.device "read failed")
  obtain rfl := Except.error.inj (program_cut_in_word.symm.trans failed)
  rcases blamed with faulty | same | ⟨token, lexeme, named, present, part, -⟩
  · cases faulty
  · rw [parsed] at same
    cases same
  · obtain rfl := Error.unexpected.inj named
    exact ⟨by decide, lexeme, present, part⟩

/-- A program can be blamed where its reader fails. -/
theorem not_error_of_cut :
    ¬ ∀ (text : String) (capacity : Nat) (positive : 0 < capacity) (count : Nat) (fault : Fault),
      ∃ error, (ofSource (ByteSource.ofReader (Reader.ofBytes capacity positive
          ((Utf8.encode text.toList).take count) (.failing fault)))).program.1 = .error error ∧
        (error = .transport fault ∨ parse text = .error error) := by
  intro law
  obtain ⟨error, failed, faulty | same⟩ :=
    law "a := b.c(true);" 5 (by decide) 12 (.device "read failed")
  · rw [program_cut_in_word, faulty] at failed
    cases failed
  · obtain ⟨program, parsed⟩ : Accepts "a := b.c(true);" :=
      (accepts_iff_walk _).2 (by decide +kernel)
    rw [parsed] at same
    cases same

end Parser

end Fluent
