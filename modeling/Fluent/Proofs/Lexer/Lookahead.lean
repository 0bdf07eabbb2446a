/-
This file proves that a token looks one character ahead at most.
-/

import Fluent.Proofs.Lexer.Truncation
import Fluent.Proofs.Source.TextView

namespace Fluent

open CharSource (tokenText)
open Viewed (Shows)

/-- A token of the kind ends with its last character, so nothing is looked at behind it. -/
def Kind.closesItself (kind : Kind) : Bool :=
  kind ∈ [.text, .blob, .define, .semicolon, .dot, .comma, .openParen, .closeParen]

namespace Lexer

/-- A token that leaves some of the text in front does not meet the end of this text. -/
theorem ended_of_length_lt {front later : List Char}
    (shorter : (readToken (front ++ later)).literal.length < front.length) :
    (readToken front).ended = false := by
  cases front with
  | nil => exact absurd shorter (Nat.not_lt_zero _)
  | cons character rest =>
    refine Bool.eq_false_iff.2 fun ended => ?_
    obtain ⟨-, -, -, further, literal, -⟩ := readToken_of_ended ended later
    rw [literal, List.length_append] at shorter
    omega

/-- A token that is closed by its last character does not meet the end of its literal. -/
theorem ended_of_closesItself {front later : List Char}
    (whole : (readToken (front ++ later)).literal = front)
    (closes : (readToken (front ++ later)).kind.closesItself) :
    (readToken front).ended = false := by
  have alone := (readToken_literal (front ++ later)).1
  rw [whole] at alone
  rw [← alone] at closes
  cases front with
  | nil => cases closes
  | cons character rest =>
    refine Bool.eq_false_iff.2 fun ended => ?_
    have among := kind_of_ended ended
    generalize (readToken (character :: rest)).kind = kind at closes among
    revert closes among
    cases kind <;> decide

/-- A token that ends within the text in front does not meet the end of this text. -/
theorem ended_of_settled {front later : List Char}
    (settled : (readToken (front ++ later)).literal.length < front.length ∨
      (readToken (front ++ later)).literal = front ∧
        (readToken (front ++ later)).kind.closesItself) :
    (readToken front).ended = false :=
  settled.elim ended_of_length_lt fun both => ended_of_closesItself both.1 both.2

end Lexer

namespace Scanner

variable {σ τ : Type} [CharSource σ] [Viewed σ] [CharSource τ] [Viewed τ] {source : σ} {other : τ}
  {view viewOther : View}

theorem tokenText_scan_false (shown : Shows source view) :
    (tokenText (scan false source).2).toList = (Lexer.readToken view.ahead).literal := by
  obtain ⟨-, after⟩ := token_shows shown
  rw [scan_false, Viewed.tokenText after]
  exact String.toList_ofList

/-- A token that ends before the text in front does is scanned off it, and nothing else. -/
theorem scan_of_going (shown : Shows source view) {front behind : List Char}
    (ahead : view.ahead = front ++ behind) (going : (Lexer.readToken front).ended = false) :
    (scan false source).1 = (Lexer.readToken front).kind ∧
      (tokenText (scan false source).2).toList = (Lexer.readToken front).literal ∧
      Shows (scan false source).2 { view.startToken with
        token := (Lexer.readToken front).literal
        ahead := (Lexer.readToken front).rest ++ behind } := by
  have literal := tokenText_scan_false shown
  obtain ⟨kind, after⟩ := token_shows shown
  rw [View.afterToken, View.consume, ahead, Lexer.readToken_append_of_going going, going] at after
  rw [ahead, Lexer.readToken_append_of_going going] at kind literal
  rw [scan_false] at literal ⊢
  exact ⟨kind, literal, after⟩

/-- A scan looks one character ahead at most, and none where its last one closes the token. -/
theorem scan_lookahead (shown : Shows source view) (shownOther : Shows other viewOther) :
    let kind := (scan false source).1
    let literal := (tokenText (scan false source).2).toList
    let same := (scan false other).1 = kind ∧ (tokenText (scan false other).2).toList = literal
    (∀ front later behind, view.ahead = front ++ later → viewOther.ahead = front ++ behind →
        literal.length < front.length ∨ literal = front ∧ kind.closesItself →
        same ∧ ∃ rest, front = literal ++ rest ∧
          Shows (scan false source).2
            { view.startToken with token := literal, ahead := rest ++ later } ∧
          Shows (scan false other).2
            { viewOther.startToken with token := literal, ahead := rest ++ behind }) ∧
      ∀ next later behind, view.ahead = literal ++ next :: later →
        viewOther.ahead = literal ++ next :: behind → same := by
  intro kind literal same
  refine (and_iff_left_of_imp fun settles next later behind ahead aheadOther => ?_).2 ?_
  · have longer : literal.length < (literal ++ [next]).length := by simp
    exact (settles (literal ++ [next]) later behind (by simpa using ahead)
      (by simpa using aheadOther) (.inl longer)).1
  · intro front later behind ahead aheadOther settled
    have read : literal = (Lexer.readToken view.ahead).literal := tokenText_scan_false shown
    have sort : kind = (Lexer.readToken view.ahead).kind := by
      rw [← (token_shows shown).1, ← scan_false]
    rw [read, sort, ahead] at settled
    have going := Lexer.ended_of_settled settled
    obtain ⟨kindHere, literalHere, afterHere⟩ := scan_of_going shown ahead going
    obtain ⟨kindThere, literalThere, afterThere⟩ := scan_of_going shownOther aheadOther going
    have parts := Lexer.readToken_literal_append_rest front
    rw [← literalHere] at literalThere afterHere afterThere parts
    exact ⟨⟨kindThere.trans kindHere.symm, literalThere⟩, _, parts.symm, afterHere, afterThere⟩

/-- Neither more text behind a refused numeral nor less behind a blob changes what is scanned. -/
theorem scan_lookahead_fresh :
    let numeral := TextSource.ofString "1.e+x;"
    let numeralOther := TextSource.ofString "1.e+x;0"
    let blob := TextSource.ofString "\x7b\"\x7d\"\x7d\x7d"
    let blobOther := TextSource.ofString "\x7b\"\x7d\"\x7d"
    ((scan false numeral).1 = .illegal ∧ tokenText (scan false numeral).2 = "1.e+x") ∧
      ((scan false numeralOther).1 = (scan false numeral).1 ∧
        (tokenText (scan false numeralOther).2).toList =
          (tokenText (scan false numeral).2).toList) ∧
      ((scan false blob).1 = .blob ∧ tokenText (scan false blob).2 = "\x7b\"\x7d\"\x7d") ∧
      (scan false blobOther).1 = (scan false blob).1 ∧
        (tokenText (scan false blobOther).2).toList = (tokenText (scan false blob).2).toList := by
  intro numeral numeralOther blob blobOther
  have shows (text : String) :
      Shows (TextSource.ofString text) (View.ofText text.toList) := TextSource.ofList_shows _
  have front : Lexer.readToken "1.e+x;".toList = ⟨.illegal, "1.e+x".toList, [';'], false⟩ := by
    decide
  have frontBlob : Lexer.readToken "\x7b\"\x7d\"\x7d\x7d".toList =
      ⟨.blob, "\x7b\"\x7d\"\x7d".toList, ['\x7d'], false⟩ := by
    decide
  obtain ⟨kind, literal, -⟩ := scan_of_readToken (shows "1.e+x;") front Kind.noConfusion false
  obtain ⟨kindBlob, literalBlob, -⟩ :=
    scan_of_readToken (shows "\x7b\"\x7d\"\x7d\x7d") frontBlob Kind.noConfusion false
  refine ⟨⟨kind, literal⟩, ?_, ⟨kindBlob, literalBlob⟩, ?_⟩
  · refine ((scan_lookahead (shows _) (shows _)).1 "1.e+x;".toList [] ['0'] (by rfl) (by rfl)
      (.inl ?_)).1
    rw [literal]
    decide
  · refine ((scan_lookahead (shows _) (shows _)).1 "\x7b\"\x7d\"\x7d".toList ['\x7d'] [] (by rfl)
      (by rfl) (.inr ?_)).1
    rw [kindBlob, literalBlob]
    exact ⟨rfl, rfl⟩

end Scanner

end Fluent
