/-
This file proves that each lexeme starts behind the start of the one before.
-/

import Fluent.Proofs.Source.Truncation

namespace Fluent

namespace Transcript

/-- The end of an input as a lexeme. -/
def finish (transcript : Transcript) : Lexeme :=
  ⟨.finish, "", transcript.byteLength, transcript.charLength, transcript.fault.isSome⟩

/-- The lexemes of an input, of which the end is the last. -/
def lexemesToEnd (transcript : Transcript) : List Lexeme :=
  transcript.lexemes ++ [transcript.finish]

/-- The tokens of an input without its blanks, of which the end is the last. -/
def tokensToEnd (transcript : Transcript) : List Token :=
  transcript.lexemesToEnd.map Lexeme.token

theorem tokensToEnd_eq (transcript : Transcript) :
    transcript.tokensToEnd = transcript.tokens ++ [⟨.finish, ""⟩] := by
  rw [tokensToEnd, lexemesToEnd, List.map_append]
  rfl

end Transcript

/-- Lexemes in the order of their places. -/
def Lexeme.Ordered (lexemes : List Lexeme) : Prop :=
  lexemes.Pairwise fun first second => first.byteOffset < second.byteOffset

/-- Among lexemes in order, an offset is found in one place only. -/
theorem Lexeme.Ordered.split_unique {before after before' after' : List Lexeme}
    {lexeme lexeme' : Lexeme} (ordered : Ordered (before ++ lexeme :: after))
    (split : before ++ lexeme :: after = before' ++ lexeme' :: after')
    (place : lexeme.byteOffset = lexeme'.byteOffset) :
    before = before' ∧ lexeme = lexeme' ∧ after = after' := by
  have first {lexeme lexeme' : Lexeme} {before between after : List Lexeme}
      (ordered : Ordered (before ++ lexeme :: (between ++ lexeme' :: after))) :
      lexeme.byteOffset < lexeme'.byteOffset :=
    (List.pairwise_cons.1 (List.pairwise_append.1 ordered).2.1).1 lexeme' (by simp)
  rcases List.append_eq_append_iff.1 split with ⟨between, later, same⟩ | ⟨between, later, same⟩
  · cases between with
    | nil =>
      obtain ⟨rfl, rfl⟩ := List.cons.inj same
      exact ⟨by rw [later, List.append_nil], rfl, rfl⟩
    | cons next between =>
      obtain ⟨rfl, rest⟩ := List.cons.inj same
      rw [rest] at ordered
      exact absurd place (Nat.ne_of_lt (first ordered))
  · cases between with
    | nil =>
      obtain ⟨rfl, rfl⟩ := List.cons.inj same
      exact ⟨by rw [later, List.append_nil], rfl, rfl⟩
    | cons next between =>
      obtain ⟨rfl, rest⟩ := List.cons.inj same
      rw [split, rest] at ordered
      exact absurd place (Nat.ne_of_gt (first ordered))

theorem Lexeme.Ordered.eq_of_byteOffset {lexemes : List Lexeme} {first second : Lexeme}
    (ordered : Ordered lexemes) (present : first ∈ lexemes) (other : second ∈ lexemes)
    (place : first.byteOffset = second.byteOffset) : first = second := by
  obtain ⟨before, after, rfl⟩ := List.append_of_mem present
  obtain ⟨before', after', split⟩ := List.append_of_mem other
  exact (ordered.split_unique split place).2.1

/-- The lexemes of what is ahead start there, in order. -/
theorem View.ordered_transcript (view : View) :
    (∀ lexeme ∈ view.transcript.lexemesToEnd, view.startToken.byteStart ≤ lexeme.byteOffset) ∧
      Lexeme.Ordered view.transcript.lexemesToEnd := by
  induction view using View.transcript.induct with
  | case1 view ended =>
    rw [transcript_of_nil ended]
    exact ⟨List.forall_mem_singleton.2 (Nat.le_refl _), List.pairwise_singleton _ _⟩
  | case2 view character rest ahead kind blank hypothesis =>
    obtain ⟨lower, ordered⟩ := hypothesis
    have first := (byteStart_afterToken_bounds ahead).1
    rw [transcript_of_blank blank]
    refine ⟨fun lexeme present => ?_, ordered⟩
    have behind := lower lexeme present
    omega
  | case3 view character rest ahead kind proper hypothesis =>
    obtain ⟨lower, ordered⟩ := hypothesis
    have first := (byteStart_afterToken_bounds ahead).1
    have wide := character.utf8Size_pos
    rw [transcript_of_proper ahead proper]
    have split : Transcript.lexemesToEnd { view.afterToken.transcript with
        lexemes := view.afterToken.lexeme (Lexer.readToken view.ahead).kind ::
          view.afterToken.transcript.lexemes } =
      view.afterToken.lexeme (Lexer.readToken view.ahead).kind ::
        view.afterToken.transcript.lexemesToEnd := rfl
    have start : (view.afterToken.lexeme (Lexer.readToken view.ahead).kind).byteOffset =
      view.startToken.byteStart := rfl
    rw [split]
    refine ⟨List.forall_mem_cons.2 ⟨Nat.le_of_eq start.symm, fun lexeme present => ?_⟩,
      List.pairwise_cons.2 ⟨fun lexeme present => ?_, ordered⟩⟩
    · have behind := lower lexeme present
      omega
    · have behind := lower lexeme present
      omega

theorem Transcript.ordered_ofString (text : String) :
    Lexeme.Ordered (Transcript.ofSource (TextSource.ofString text)).lexemesToEnd := by
  have shown : Viewed.Shows (TextSource.ofString text) (View.ofText text.toList) :=
    TextSource.ofList_shows text.toList
  rw [Transcript.ofSource_eq_transcript shown]
  exact (View.ordered_transcript _).2

end Fluent
