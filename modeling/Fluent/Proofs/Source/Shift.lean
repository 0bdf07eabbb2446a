/-
This file holds what becomes of the lexemes of a text that stands further on.
-/

import Fluent.Proofs.Source.Transcript

namespace Fluent

/-- The lexeme with another text before its own. -/
def Lexeme.shift (bytes characters : Nat) (lexeme : Lexeme) : Lexeme :=
  { lexeme with
    byteOffset := lexeme.byteOffset + bytes
    charOffset := lexeme.charOffset + characters }

def Transcript.shift (bytes characters : Nat) (transcript : Transcript) : Transcript :=
  { transcript with
    lexemes := transcript.lexemes.map (Lexeme.shift bytes characters)
    byteLength := transcript.byteLength + bytes
    charLength := transcript.charLength + characters }

theorem Transcript.tokens_shift (bytes characters : Nat) (transcript : Transcript) :
    (transcript.shift bytes characters).tokens = transcript.tokens := by
  rw [tokens, tokens, shift, List.map_map]
  rfl

namespace View

/-- The blanks that come next are taken off, and the next token starts behind them. -/
theorem startToken_afterBlanks (view : View) :
    view.afterBlanks.ahead = view.ahead.dropWhile isBlank ∧
      view.afterBlanks.startToken.byteStart =
        view.startToken.byteStart + Utf8.size (view.ahead.takeWhile isBlank) ∧
      view.afterBlanks.startToken.charStart =
        view.startToken.charStart + (view.ahead.takeWhile isBlank).length := by
  rw [afterBlanks]
  split
  next blank =>
    obtain ⟨literal, rest⟩ := Lexer.readToken_of_kind_blank blank
    rw [← literal, ← rest]
    exact ⟨rfl, rfl, rfl⟩
  next proper =>
    obtain ⟨none, all⟩ := Lexer.takeWhile_isBlank_of_kind_ne proper
    rw [none, all]
    exact ⟨rfl, rfl, rfl⟩

theorem tail_afterToken_of_sound {view : View} (sound : view.tail = .sound) :
    view.afterToken.tail = .sound := by
  show (if (Lexer.readToken view.ahead).ended then view.tail.reach else view.tail) = _
  rw [sound]
  split <;> rfl

theorem tail_afterBlanks_of_sound {view : View} (sound : view.tail = .sound) :
    view.afterBlanks.tail = .sound := by
  rw [afterBlanks]
  split
  · exact tail_afterToken_of_sound sound
  · exact sound

/-- A view beside one with the same text ahead, whose next token starts further on. -/
structure Shifted (bytes characters : Nat) (view moved : View) : Prop where
  ahead : moved.ahead = view.ahead
  byteStart : moved.startToken.byteStart = view.startToken.byteStart + bytes
  charStart : moved.startToken.charStart = view.startToken.charStart + characters
  sound : view.tail = .sound
  soundMoved : moved.tail = .sound

namespace Shifted

variable {bytes characters : Nat} {view moved : View}

theorem afterToken (shifted : Shifted bytes characters view moved) :
    Shifted bytes characters view.afterToken moved.afterToken := by
  obtain ⟨ahead, byteStart, charStart, sound, soundMoved⟩ := shifted
  refine ⟨?_, ?_, ?_, tail_afterToken_of_sound sound, tail_afterToken_of_sound soundMoved⟩
  · show (Lexer.readToken moved.ahead).rest = (Lexer.readToken view.ahead).rest
    rw [ahead]
  · show moved.startToken.byteStart + Utf8.size (Lexer.readToken moved.ahead).literal =
      view.startToken.byteStart + Utf8.size (Lexer.readToken view.ahead).literal + bytes
    rw [ahead, byteStart]
    omega
  · show moved.startToken.charStart + (Lexer.readToken moved.ahead).literal.length =
      view.startToken.charStart + (Lexer.readToken view.ahead).literal.length + characters
    rw [ahead, charStart]
    omega

theorem lexeme_afterToken (shifted : Shifted bytes characters view moved) (kind : Kind) :
    moved.afterToken.lexeme kind = (view.afterToken.lexeme kind).shift bytes characters := by
  have byteStart : moved.afterToken.byteStart = view.afterToken.byteStart + bytes :=
    shifted.byteStart
  have charStart : moved.afterToken.charStart = view.afterToken.charStart + characters :=
    shifted.charStart
  have token : moved.afterToken.token = view.afterToken.token := by
    show [] ++ (Lexer.readToken moved.ahead).literal = [] ++ (Lexer.readToken view.ahead).literal
    rw [shifted.ahead]
  simp only [lexeme, Lexeme.shift, takeFault, byteStart, charStart, token,
    shifted.afterToken.sound, shifted.afterToken.soundMoved]

theorem transcript (shifted : Shifted bytes characters view moved) :
    moved.transcript = view.transcript.shift bytes characters := by
  induction size : view.ahead.length using Nat.strongRecOn generalizing view moved with
  | ind size hypothesis =>
    cases ahead : view.ahead with
    | nil =>
      have endedMoved : moved.ahead = [] := shifted.ahead.trans ahead
      have byteStart : moved.afterToken.byteStart = view.afterToken.byteStart + bytes :=
        shifted.byteStart
      have charStart : moved.afterToken.charStart = view.afterToken.charStart + characters :=
        shifted.charStart
      rw [transcript_of_nil ahead, transcript_of_nil endedMoved]
      simp only [Transcript.shift, takeFault, byteStart, charStart, List.map_nil,
        shifted.afterToken.sound, shifted.afterToken.soundMoved]
    | cons character rest =>
      have aheadMoved : moved.ahead = character :: rest := shifted.ahead.trans ahead
      have smaller := length_ahead_afterToken_lt ahead
      have later := hypothesis _ (size ▸ smaller) shifted.afterToken rfl
      by_cases blank : (Lexer.readToken view.ahead).kind = .blank
      · have blankMoved : (Lexer.readToken moved.ahead).kind = .blank := by rwa [shifted.ahead]
        rw [transcript_of_blank blank, transcript_of_blank blankMoved, later]
      · have properMoved : (Lexer.readToken moved.ahead).kind ≠ .blank := by rwa [shifted.ahead]
        rw [transcript_of_proper ahead blank, transcript_of_proper aheadMoved properMoved, later,
          shifted.lexeme_afterToken, shifted.ahead]
        rfl

end Shifted

/-- What comes behind blanks is transcribed as if it came first, but for the places. -/
theorem transcript_of_blanks {bytes characters : Nat} {blanks : List Char} {view moved : View}
    (blank : ∀ character ∈ blanks, isBlank character) (ahead : moved.ahead = blanks ++ view.ahead)
    (byteStart : moved.startToken.byteStart + Utf8.size blanks = view.startToken.byteStart + bytes)
    (charStart : moved.startToken.charStart + blanks.length =
      view.startToken.charStart + characters)
    (sound : view.tail = .sound) (soundMoved : moved.tail = .sound) :
    moved.transcript = view.transcript.shift bytes characters := by
  obtain ⟨left, start, count⟩ := view.startToken_afterBlanks
  obtain ⟨leftMoved, startMoved, countMoved⟩ := moved.startToken_afterBlanks
  rw [ahead, List.dropWhile_append_of_pos blank] at leftMoved
  rw [ahead, List.takeWhile_append_of_pos blank, Utf8.size_append] at startMoved
  rw [ahead, List.takeWhile_append_of_pos blank, List.length_append] at countMoved
  have shifted : Shifted bytes characters view.afterBlanks moved.afterBlanks :=
    ⟨leftMoved.trans left.symm, by omega, by omega, tail_afterBlanks_of_sound sound,
      tail_afterBlanks_of_sound soundMoved⟩
  rw [← moved.transcript_afterBlanks, ← view.transcript_afterBlanks]
  exact shifted.transcript

end View

end Fluent
