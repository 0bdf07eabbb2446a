/-
This file holds the lexemes, the end and the fault of a source in terms of its view.
-/

import Fluent.Proofs.Source.View

namespace Fluent

namespace View

/-- The token of a view as a lexeme of the given kind. -/
def lexeme (kind : Kind) (view : View) : Lexeme :=
  ⟨kind, String.ofList view.token, view.byteStart, view.charStart, view.takeFault.1.isSome⟩

theorem length_ahead_afterToken_lt {view : View} {character : Char} {rest : List Char}
    (ahead : view.ahead = character :: rest) :
    view.afterToken.ahead.length < view.ahead.length := by
  show (Lexer.readToken view.ahead).rest.length < view.ahead.length
  rw [ahead]
  exact Lexer.length_rest_readToken_lt character rest

/-- The transcript of every source that shows a view. -/
def transcript (view : View) : Transcript :=
  match _ahead : view.ahead with
  | [] =>
    ⟨[], view.afterToken.byteStart, view.afterToken.charStart, view.afterToken.takeFault.1⟩
  | _ :: _ =>
    let later := view.afterToken.transcript
    let kind := (Lexer.readToken view.ahead).kind
    if kind = .blank then later
    else { later with lexemes := view.afterToken.lexeme kind :: later.lexemes }
termination_by view.ahead.length
decreasing_by exact length_ahead_afterToken_lt _ahead

theorem transcript_of_nil {view : View} (ended : view.ahead = []) :
    view.transcript =
      ⟨[], view.afterToken.byteStart, view.afterToken.charStart, view.afterToken.takeFault.1⟩ := by
  rw [transcript]
  split
  next => rfl
  next character rest going => simp [ended] at going

theorem transcript_of_blank {view : View}
    (blank : (Lexer.readToken view.ahead).kind = .blank) :
    view.transcript = view.afterToken.transcript := by
  rw [transcript]
  split
  next ended =>
    rw [ended] at blank
    cases blank
  next =>
    dsimp only
    rw [if_pos blank]

theorem transcript_of_proper {view : View} {character : Char} {rest : List Char}
    (ahead : view.ahead = character :: rest)
    (proper : (Lexer.readToken view.ahead).kind ≠ .blank) :
    view.transcript =
      { view.afterToken.transcript with
        lexemes := view.afterToken.lexeme (Lexer.readToken view.ahead).kind ::
          view.afterToken.transcript.lexemes } := by
  rw [transcript]
  split
  next ended => simp [ahead] at ended
  next =>
    dsimp only
    rw [if_neg proper]

/-- Blanks do not matter to a transcript. -/
theorem transcript_afterBlanks (view : View) : view.afterBlanks.transcript = view.transcript := by
  rw [afterBlanks]
  split
  next blank => exact (transcript_of_blank blank).symm
  next => rfl

end View

open Viewed (Shows)

variable {σ : Type} [CharSource σ] [Viewed σ] {source : σ} {view : View}

theorem Viewed.lexeme_eq (shown : Shows source view) (kind : Kind) :
    (⟨kind, CharSource.tokenText source, CharSource.byteOffset source,
      CharSource.charOffset source, (CharSource.takeFault source).1.isSome⟩ : Lexeme) =
        view.lexeme kind := by
  rw [Viewed.tokenText shown, Viewed.byteOffset shown, Viewed.charOffset shown,
    (Viewed.takeFault shown).1]
  rfl

/-- What a source has to say is told by its view. -/
theorem Transcript.ofSource_eq_transcript (shown : Shows source view) :
    Transcript.ofSource source = view.transcript := by
  induction source using Transcript.ofSource.induct generalizing view with
  | case1 source after scanned =>
    obtain ⟨kind, last⟩ := Scanner.scan_shows shown
    rw [scanned] at kind last
    have ended := Lexer.eq_nil_of_kind_finish kind.symm
    rw [← view.transcript_afterBlanks, View.transcript_of_nil ended, Transcript.ofSource]
    split
    next found after' same =>
      obtain ⟨rfl, rfl⟩ := Prod.mk.inj (scanned.symm.trans same)
      rw [dif_pos rfl, Viewed.byteOffset last, Viewed.charOffset last, (Viewed.takeFault last).1]
  | case2 source kind after scanned going hypothesis =>
    obtain ⟨found, last⟩ := Scanner.scan_shows shown
    rw [scanned] at found last
    have proper := view.kind_afterBlanks_ne_blank
    have later := hypothesis last
    cases ahead : view.afterBlanks.ahead with
    | nil =>
      rw [ahead] at found
      exact absurd found going
    | cons character rest =>
      rw [← view.transcript_afterBlanks, View.transcript_of_proper ahead proper, ← later, ← found,
        Transcript.ofSource]
      split
      next found after' same =>
        obtain ⟨rfl, rfl⟩ := Prod.mk.inj (scanned.symm.trans same)
        rw [dif_neg going, Viewed.lexeme_eq last]

end Fluent
