/-
This file holds an input beside one that goes on behind it.
-/

import Fluent.Proofs.Lexer.Truncation
import Fluent.Proofs.Source.Transcript

namespace Fluent.View

variable {view : View}

/-- What is ahead ends at the same place before a token and behind it. -/
theorem startToken_afterToken (view : View) :
    view.afterToken.startToken.byteStart + Utf8.size view.afterToken.ahead =
        view.startToken.byteStart + Utf8.size view.ahead ∧
      view.afterToken.startToken.charStart + view.afterToken.ahead.length =
        view.startToken.charStart + view.ahead.length := by
  have whole := Lexer.readToken_literal_append_rest view.ahead
  have bytes := congrArg Utf8.size whole
  have characters := congrArg List.length whole
  rw [Utf8.size_append] at bytes
  rw [List.length_append] at characters
  constructor
  · show view.startToken.byteStart + Utf8.size (Lexer.readToken view.ahead).literal +
      Utf8.size (Lexer.readToken view.ahead).rest = _
    omega
  · show view.startToken.charStart + (Lexer.readToken view.ahead).literal.length +
      (Lexer.readToken view.ahead).rest.length = _
    omega

/-- Only the end of the input does something to the tail. -/
theorem tail_afterToken_of_going (going : (Lexer.readToken view.ahead).ended = false) :
    view.afterToken.tail = view.tail := by
  show (if (Lexer.readToken view.ahead).ended then _ else view.tail) = _
  rw [going]
  rfl

theorem takeFault_of_unmet (unmet : ∀ fault, view.tail ≠ .met fault) :
    view.takeFault.1 = none := by
  rw [takeFault]
  split
  next fault met => exact absurd met (unmet fault)
  next => rfl

/-- A view beside one in which more is ahead. No fault has been met in either. -/
structure Extends (more : List Char) (short long : View) : Prop where
  token : short.token = long.token
  byteStart : short.byteStart = long.byteStart
  charStart : short.charStart = long.charStart
  ahead : long.ahead = short.ahead ++ more
  unmet : ∀ fault, short.tail ≠ .met fault
  unmetLong : ∀ fault, long.tail ≠ .met fault

namespace Extends

variable {more : List Char} {short long : View}

theorem byteStart_startToken (views : Extends more short long) :
    short.startToken.byteStart = long.startToken.byteStart := by
  show short.byteStart + Utf8.size short.token = long.byteStart + Utf8.size long.token
  rw [views.token, views.byteStart]

theorem charStart_startToken (views : Extends more short long) :
    short.startToken.charStart = long.startToken.charStart := by
  show short.charStart + short.token.length = long.charStart + long.token.length
  rw [views.token, views.charStart]

theorem lexeme_eq (views : Extends more short long) (kind : Kind) :
    short.lexeme kind = long.lexeme kind := by
  simp only [lexeme, views.token, views.byteStart, views.charStart,
    takeFault_of_unmet views.unmet, takeFault_of_unmet views.unmetLong]

section

variable (views : Extends more short long) (going : (Lexer.readToken short.ahead).ended = false)
include views going

/-- A token that does not meet the end is read before more as before the end. -/
theorem readToken_eq :
    Lexer.readToken long.ahead =
      { Lexer.readToken short.ahead with rest := (Lexer.readToken short.ahead).rest ++ more } := by
  rw [views.ahead, Lexer.readToken_append_of_going going]

theorem tail_afterToken :
    short.afterToken.tail = short.tail ∧ long.afterToken.tail = long.tail :=
  ⟨tail_afterToken_of_going going,
    tail_afterToken_of_going (by rw [views.readToken_eq going]; exact going)⟩

theorem afterToken : Extends more short.afterToken long.afterToken := by
  have read := views.readToken_eq going
  obtain ⟨tail, tailLong⟩ := views.tail_afterToken going
  refine ⟨?_, views.byteStart_startToken, views.charStart_startToken, ?_, ?_, ?_⟩
  · show [] ++ (Lexer.readToken short.ahead).literal = [] ++ (Lexer.readToken long.ahead).literal
    rw [read]
  · show (Lexer.readToken long.ahead).rest = (Lexer.readToken short.ahead).rest ++ more
    rw [read]
  · rw [tail]
    exact views.unmet
  · rw [tailLong]
    exact views.unmetLong

/-- Such a token adds the same lexeme to both, or none if it is a blank one. -/
theorem transcript_of_going (nonempty : short.ahead ≠ []) :
    ∃ first, short.transcript =
        { short.afterToken.transcript with
          lexemes := first ++ short.afterToken.transcript.lexemes } ∧
      long.transcript =
        { long.afterToken.transcript with
          lexemes := first ++ long.afterToken.transcript.lexemes } := by
  have kind : (Lexer.readToken long.ahead).kind = (Lexer.readToken short.ahead).kind := by
    rw [views.readToken_eq going]
  obtain ⟨character, rest, ahead⟩ := List.exists_cons_of_ne_nil nonempty
  have aheadLong : long.ahead = character :: (rest ++ more) := by
    rw [views.ahead, ahead, List.cons_append]
  by_cases blank : (Lexer.readToken short.ahead).kind = .blank
  · exact ⟨[], transcript_of_blank blank, transcript_of_blank (kind.trans blank)⟩
  · refine ⟨[short.afterToken.lexeme (Lexer.readToken short.ahead).kind], ?_, ?_⟩
    · exact transcript_of_proper ahead blank
    · rw [transcript_of_proper aheadLong (by rwa [kind]), kind,
        ← (views.afterToken going).lexeme_eq]
      rfl

end

/-- Both have the same lexemes until the first is at its end, or in a token that meets it. -/
theorem exists_seam (views : Extends more short long) :
    ∃ common near far, Extends more near far ∧ near.tail = short.tail ∧ far.tail = long.tail ∧
      (near.startToken.byteStart + Utf8.size near.ahead =
          short.startToken.byteStart + Utf8.size short.ahead ∧
        near.startToken.charStart + near.ahead.length =
          short.startToken.charStart + short.ahead.length) ∧
      short.transcript =
        { near.transcript with lexemes := common ++ near.transcript.lexemes } ∧
      long.transcript = { far.transcript with lexemes := common ++ far.transcript.lexemes } ∧
      (near.ahead = [] ∨ (Lexer.readToken near.ahead).ended = true) := by
  induction size : short.ahead.length using Nat.strongRecOn generalizing short long with
  | ind length hypothesis =>
    subst size
    by_cases stopped : short.ahead = [] ∨ (Lexer.readToken short.ahead).ended = true
    · exact ⟨[], short, long, views, rfl, rfl, ⟨rfl, rfl⟩, rfl, rfl, stopped⟩
    · obtain ⟨nonempty, going⟩ := not_or.1 stopped
      rw [Bool.not_eq_true] at going
      obtain ⟨character, rest, ahead⟩ := List.exists_cons_of_ne_nil nonempty
      have smaller := length_ahead_afterToken_lt ahead
      obtain ⟨tail, tailLong⟩ := views.tail_afterToken going
      obtain ⟨first, shortened, lengthened⟩ := views.transcript_of_going going nonempty
      obtain ⟨bytes, characters⟩ := short.startToken_afterToken
      obtain ⟨common, near, far, seam, nearTail, farTail, ⟨bytesNear, charactersNear⟩, before,
        beforeLong, ended⟩ := hypothesis _ smaller (views.afterToken going) rfl
      refine ⟨first ++ common, near, far, seam, nearTail.trans tail, farTail.trans tailLong,
        ⟨bytesNear.trans bytes, charactersNear.trans characters⟩, ?_, ?_, ended⟩
      · rw [shortened, before, List.append_assoc]
      · rw [lengthened, beforeLong, List.append_assoc]

end Extends

end Fluent.View
