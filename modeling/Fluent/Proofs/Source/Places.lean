/-
This file proves that every lexeme stands where its offsets say.
-/

import Mathlib.Data.String.Basic
import Fluent.Proofs.Source.Transcript

namespace Fluent

theorem Utf8.size_toList (text : String) : size text.toList = text.utf8ByteSize := by
  have sized (text : List Char) : size text = String.utf8Len text := by
    induction text with
    | nil => rfl
    | cons character text hypothesis =>
      rw [size_cons, String.utf8Len_cons, hypothesis, Nat.add_comm]
  rw [sized, ← String.utf8ByteSize_ofList, String.ofList_toList]

/-- A text reads `literal` from its `first` byte up to `last`, behind `count` characters. -/
def Spells (text : List Char) (first last : Nat) (literal : String) (count : Nat) : Prop :=
  ∃ before after, text = before ++ (literal.toList ++ after) ∧ first = Utf8.size before ∧
    last = Utf8.size (before ++ literal.toList) ∧ count = before.length

/-- The place behind the last character of a text. -/
theorem spells_end (text : List Char) :
    Spells text (Utf8.size text) (Utf8.size text) "" text.length :=
  ⟨text, [], by simp, rfl, by simp, rfl⟩

namespace View

variable {view : View} {text : List Char}

/-- A view shows the end of a text, from where its token starts. -/
def Within (view : View) (text : List Char) : Prop :=
  ∃ before, text = before ++ (view.token ++ view.ahead) ∧ view.byteStart = Utf8.size before ∧
    view.charStart = before.length

theorem Within.startToken (within : view.Within text) : view.startToken.Within text := by
  obtain ⟨before, split, bytes, characters⟩ := within
  refine ⟨before ++ view.token, ?_, ?_, ?_⟩
  · rw [split, List.append_assoc]
    rfl
  · rw [Utf8.size_append, ← bytes]
    rfl
  · rw [List.length_append, ← characters]
    rfl

theorem Within.afterToken (within : view.Within text) : view.afterToken.Within text := by
  obtain ⟨before, split, bytes, characters⟩ := within.startToken
  refine ⟨before, ?_, bytes, characters⟩
  rw [split]
  show before ++ ([] ++ view.ahead) =
    before ++ (([] ++ (Lexer.readToken view.ahead).literal) ++ (Lexer.readToken view.ahead).rest)
  rw [List.nil_append, List.nil_append, Lexer.readToken_literal_append_rest]

/-- The token of a view stands where the view says. -/
theorem Within.spells (within : view.Within text) :
    Spells text view.byteStart (view.byteStart + Utf8.size view.token) (String.ofList view.token)
      view.charStart := by
  obtain ⟨before, split, bytes, characters⟩ := within
  refine ⟨before, view.ahead, ?_, bytes, ?_, characters⟩
  · rw [String.toList_ofList, split]
  · rw [String.toList_ofList, Utf8.size_append, bytes]

/-- Where nothing is ahead, the next token starts at the end of the text. -/
theorem Within.start_of_ended (within : view.Within text) (ended : view.ahead = []) :
    view.startToken.byteStart = Utf8.size text ∧ view.startToken.charStart = text.length := by
  obtain ⟨before, split, bytes, characters⟩ := within
  rw [ended, List.append_nil] at split
  rw [split, Utf8.size_append, List.length_append, ← bytes, ← characters]
  exact ⟨rfl, rfl⟩

end View

/-- A lexeme stands in a text where its offsets say, and it is not the end. -/
structure Lexeme.StandsIn (lexeme : Lexeme) (text : List Char) : Prop where
  spells : Spells text lexeme.byteOffset (lexeme.byteOffset + lexeme.literal.utf8ByteSize)
    lexeme.literal lexeme.charOffset
  proper : lexeme.kind ≠ .finish

/-- The lexemes of a transcript stand in a text, and its end is the end of the text. -/
structure Transcript.Describes (transcript : Transcript) (text : List Char) : Prop where
  lexemes : ∀ lexeme ∈ transcript.lexemes, lexeme.StandsIn text
  byteLength : transcript.byteLength = Utf8.size text
  charLength : transcript.charLength = text.length

namespace View

theorem Within.lexeme {view : View} {text : List Char} {kind : Kind}
    (within : view.Within text) (proper : kind ≠ .finish) : (view.lexeme kind).StandsIn text := by
  refine ⟨?_, proper⟩
  rw [← Utf8.size_toList]
  show Spells text view.byteStart
    (view.byteStart + Utf8.size (String.ofList view.token).toList) (String.ofList view.token)
    view.charStart
  rw [String.toList_ofList]
  exact within.spells

/-- A view of a text is transcribed with exact offsets. -/
theorem Within.transcript {view : View} {text : List Char} (within : view.Within text) :
    view.transcript.Describes text := by
  induction view using View.transcript.induct with
  | case1 view ended =>
    rw [transcript_of_nil ended]
    obtain ⟨bytes, characters⟩ := within.start_of_ended ended
    exact ⟨nofun, bytes, characters⟩
  | case2 view character rest ahead kind blank hypothesis =>
    rw [transcript_of_blank blank]
    exact hypothesis within.afterToken
  | case3 view character rest ahead kind proper hypothesis =>
    rw [transcript_of_proper ahead proper]
    obtain ⟨lexemes, bytes, characters⟩ := hypothesis within.afterToken
    have going : (Lexer.readToken view.ahead).kind ≠ .finish := by
      rw [ahead]
      exact (Lexer.kind_readToken_cons character rest).1
    exact ⟨List.forall_mem_cons.2 ⟨within.afterToken.lexeme going, lexemes⟩, bytes, characters⟩

end View

end Fluent
