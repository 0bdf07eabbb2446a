/-
This file proves that scanning takes back what writing makes of tokens.
-/

import Fluent.Proofs.Lexer.Spacing
import Fluent.Proofs.Scanner.Failure
import Fluent.Proofs.Scanner.Tiling
import Fluent.Proofs.Source.Shift

namespace Fluent

open Viewed (Shows)

/-- The token of a scan without its place. -/
def Scanned.token (scanned : Scanned) : Token :=
  ⟨scanned.kind, scanned.literal⟩

/-- The tokens that scans have found, without blanks and the end. -/
def properTokens (scanned : List Scanned) : List Token :=
  (scanned.filter fun token => token.kind ∉ [.blank, .finish]).map Scanned.token

theorem properTokens_cons (token : Scanned) (scanned : List Scanned) :
    properTokens (token :: scanned) =
      if token.kind ∈ [.blank, .finish] then properTokens scanned
      else token.token :: properTokens scanned := by
  rw [properTokens, List.filter_cons]
  split_ifs with kept dropped dropped
  · exact absurd dropped (of_decide_eq_true kept)
  · rfl
  · rfl
  · exact absurd (decide_eq_true dropped) kept

namespace View

variable {view : View}

/-- A view of a text alone finds that there is no token, or refuses the next one, or yields it. -/
theorem next_of_sound (sound : view.tail = .sound) :
    Lexer.tokens view.ahead = [] ∧ view.next.1 = none ∨
      view.next.2.tail = .sound ∧
        ∃ token, Lexer.tokens view.ahead = token :: Lexer.tokens view.next.2.ahead ∧
          if token.kind = .illegal then ∃ error, view.next.1 = some (.error error)
          else view.next.1 = some (.ok token) := by
  have after : view.afterBlanks.afterToken.tail = Tail.ofFault none :=
    tail_afterToken_of_sound (tail_afterBlanks_of_sound sound)
  by_cases finish : (Lexer.readToken view.afterBlanks.ahead).kind = .finish
  · rw [next_of_finish finish, settle_of_fault after]
    exact .inl ⟨tokens_of_finish finish, rfl⟩
  · by_cases refused : (Lexer.readToken view.afterBlanks.ahead).kind = .illegal
    · rw [next_of_illegal refused, settle_of_fault after]
      refine .inr ⟨after, _, tokens_of_going finish, ?_⟩
      rw [if_pos refused]
      exact ⟨_, rfl⟩
    · rw [next_of_proper finish refused]
      refine .inr ⟨after, _, tokens_of_going finish, ?_⟩
      rw [if_neg refused]

/-- Every token that is scanned is the one token of its literal. -/
theorem readToken_of_mem_scans {flags : List Bool} {token : Scanned}
    (present : token ∈ view.scans flags) :
    (Lexer.readToken token.literal.toList).kind = token.kind ∧
      (Lexer.readToken token.literal.toList).rest = [] := by
  induction flags generalizing view with
  | nil => cases present
  | cons ignoreBlanks flags hypothesis =>
    rw [scans] at present
    rcases List.mem_cons.1 present with rfl | later
    · rw [scanned, String.toList_ofList]
      exact Lexer.readToken_literal (view.skip ignoreBlanks).ahead
    · exact hypothesis later

/-- Scans that ignore no blanks find all tokens that are ahead, if there are enough of them. -/
theorem properTokens_scans (view : View) {count : Nat} (enough : view.ahead.length ≤ count) :
    properTokens (view.scans (List.replicate count false)) = Lexer.tokens view.ahead := by
  induction count generalizing view with
  | zero =>
    rw [List.length_eq_zero_iff.1 (Nat.le_zero.1 enough), Lexer.tokens]
    rfl
  | succ count hypothesis =>
    have shorter : view.afterToken.ahead.length ≤ view.ahead.length - 1 :=
      Lexer.length_rest_readToken_le view.ahead
    rw [scans_replicate_succ, properTokens_cons, hypothesis view.afterToken (by omega),
      Lexer.tokens_eq_of_readToken view.ahead]
    rfl

theorem exists_finish_of_scans (view : View) {count : Nat} (enough : view.ahead.length ≤ count) :
    ∃ token ∈ view.scans (List.replicate (count + 1) false), token.kind = .finish := by
  induction count generalizing view with
  | zero =>
    have nothing : view.ahead = [] := List.length_eq_zero_iff.1 (Nat.le_zero.1 enough)
    refine ⟨_, List.mem_cons_self, ?_⟩
    show (Lexer.readToken view.ahead).kind = .finish
    rw [nothing]
    rfl
  | succ count hypothesis =>
    have shorter : view.afterToken.ahead.length ≤ view.ahead.length - 1 :=
      Lexer.length_rest_readToken_le view.ahead
    obtain ⟨token, present, finish⟩ := hypothesis view.afterToken (by omega)
    exact ⟨token, List.mem_cons_of_mem _ present, finish⟩

end View

namespace Scanner

theorem collect_cons_eq_ok_iff {token : Token} {items : List (Except Error Token)}
    {sequence : List Token} :
    collect (.ok token :: items) = .ok sequence ↔
      ∃ others, token :: others = sequence ∧ collect items = .ok others := by
  rw [collect]
  cases collect items with
  | error error => simp [Except.map]
  | ok others => simp [Except.map]

/-- What is collected are the tokens of the text, if none of them is illegal. -/
theorem collect_tokens_eq_ok_iff {σ : Type} [CharSource σ] [Viewed σ] {source : σ} {view : View}
    (shown : Shows source view) (sound : view.tail = .sound) {sequence : List Token} :
    collect (tokens source).1 = .ok sequence ↔
      Lexer.tokens view.ahead = sequence ∧ ∀ token ∈ sequence, token.kind ≠ .illegal := by
  induction source using tokens.induct generalizing view sequence with
  | case1 source after found =>
    obtain ⟨same, -⟩ := next_shows shown
    rw [found] at same
    rw [tokens_of_none found, collect]
    rcases View.next_of_sound sound with ⟨nothing, -⟩ | ⟨-, token, -, yields⟩
    · rw [nothing, Except.ok.injEq]
      refine ⟨?_, And.left⟩
      rintro rfl
      exact ⟨rfl, List.forall_mem_nil _⟩
    · rw [← same] at yields
      split at yields
      · obtain ⟨error, failed⟩ := yields
        cases failed
      · cases yields
  | case2 source item after found items final later hypothesis =>
    obtain ⟨same, left⟩ := next_shows shown
    rw [found] at same left
    rw [tokens_of_some found]
    rcases View.next_of_sound sound with ⟨-, nothing⟩ | ⟨soundLeft, token, ahead, yields⟩
    · cases same.trans nothing
    · rw [ahead]
      rw [← same] at yields
      split at yields
      next refused =>
        obtain ⟨error, failed⟩ := yields
        cases failed
        refine iff_of_false (fun accepted => ?_) ?_
        · rw [collect] at accepted
          cases accepted
        · rintro ⟨rfl, legal⟩
          exact legal token List.mem_cons_self refused
      next legal =>
        cases yields
        rw [collect_cons_eq_ok_iff]
        constructor
        · rintro ⟨others, rfl, collected⟩
          obtain ⟨rfl, legalOthers⟩ := (hypothesis left soundLeft).1 collected
          exact ⟨rfl, List.forall_mem_cons.2 ⟨legal, legalOthers⟩⟩
        · rintro ⟨rfl, all⟩
          exact ⟨_, rfl, (hypothesis left soundLeft).2 ⟨rfl, (List.forall_mem_cons.1 all).2⟩⟩

theorem tokenize_eq_ok_iff {text : String} {sequence : List Token} :
    tokenize text = .ok sequence ↔
      Lexer.tokens text.toList = sequence ∧ ∀ token ∈ sequence, token.kind ≠ .illegal :=
  collect_tokens_eq_ok_iff (TextSource.ofList_shows text.toList) rfl

/-- A text that is one token, blanks included, is scanned as this token and then ends. -/
theorem scans_of_whole {text : String} (whole : (Lexer.readToken text.toList).rest = []) :
    scans [false, false] (TextSource.ofString text) =
      [⟨(Lexer.readToken text.toList).kind, text, 0, 0⟩,
        ⟨.finish, "", Utf8.size text.toList, text.length⟩] := by
  have shown : Shows (TextSource.ofString text) (View.ofText text.toList) :=
    TextSource.ofList_shows text.toList
  have start : (View.ofText text.toList).Follows [] := ⟨rfl, rfl⟩
  have ahead : (View.ofText text.toList).ahead = text.toList := rfl
  have ended : (View.ofText text.toList).afterToken.ahead = [] := whole
  have alone := Lexer.readToken_literal_append_rest text.toList
  rw [whole, List.append_nil] at alone
  have pair (view : View) : view.scans [false, false] =
      [view.afterToken.scanned (Lexer.readToken view.ahead).kind,
        view.afterToken.afterToken.scanned (Lexer.readToken view.afterToken.ahead).kind] := rfl
  rw [scans_eq shown, pair, start.scanned, start.afterToken.scanned, ended, ahead, alone,
    List.nil_append, String.ofList_toList, String.length_toList]
  rfl

/-- Written tokens are scanned again, and every literal alone is scanned as its token. -/
theorem tokens_of_respelled :
    (∀ text sequence, tokenize text = .ok sequence → ∀ (before : Blanks) (pieces : List Spaced),
        pieces.map Spaced.token = sequence →
        pieces.IsChain (fun piece _ => piece.behind.text ≠ []) →
        tokenize (Spaced.join before pieces) = .ok sequence) ∧
      ∀ (σ : Type) [CharSource σ] [Viewed σ] (source : σ) (view : View), Shows source view →
        ∀ flags, ∀ token ∈ scans flags source,
          scans [false, false] (TextSource.ofString token.literal) =
            [⟨token.kind, token.literal, 0, 0⟩,
              ⟨.finish, "", Utf8.size token.literal.toList, token.literal.length⟩] := by
  constructor
  · intro text sequence accepted before pieces same separated
    obtain ⟨rfl, legal⟩ := tokenize_eq_ok_iff.1 accepted
    have apart : pieces.IsChain Lexer.Apart :=
      separated.imp fun piece next blanks none => absurd none blanks
    exact tokenize_eq_ok_iff.2 ⟨Lexer.tokens_join same legal apart before, legal⟩
  · intro σ _ _ source view shown flags token present
    rw [scans_eq shown] at present
    obtain ⟨kind, whole⟩ := View.readToken_of_mem_scans present
    rw [scans_of_whole whole, kind]

/-- Blanks of several kinds, where there was one before or none. -/
theorem tokens_of_respelled_wide :
    let text := "x 1.\x7b\"\x7d\"\x7dtrue"
    let before : Blanks := ⟨['\t'], by decide⟩
    let pieces : List Spaced :=
      [⟨⟨.identifier, "x"⟩, ['\u2003'], by decide⟩, ⟨⟨.float, "1."⟩, ['\n', ' '], by decide⟩,
        ⟨⟨.blob, "\x7b\"\x7d\"\x7d"⟩, ['\u3000'], by decide⟩, ⟨⟨.trueWord, "true"⟩, [], by decide⟩]
    tokenize text = .ok (pieces.map Spaced.token) ∧
      tokenize (Spaced.join before pieces) = .ok (pieces.map Spaced.token) ∧
      (⟨.blank, "\u2003 ", 2, 2⟩ : Scanned) ∈
        scans [true, false] (TextSource.ofString "\nx\u2003 y") ∧
      scans [false, false] (TextSource.ofString "\u2003 ") =
        [⟨.blank, "\u2003 ", 0, 0⟩, ⟨.finish, "", 4, 2⟩] := by
  intro text before pieces
  have accepted : tokenize text = .ok (pieces.map Spaced.token) :=
    tokenize_eq_ok_iff.2 ⟨by cbv, by decide⟩
  have separated : pieces.IsChain fun piece _ => piece.behind.text ≠ [] := by simp [pieces]
  have met : (⟨.blank, "\u2003 ", 2, 2⟩ : Scanned) ∈
      scans [true, false] (TextSource.ofString "\nx\u2003 y") := by
    have read : scans [true, false] (TextSource.ofString "\nx\u2003 y") =
        [⟨.identifier, "x", 1, 1⟩, ⟨.blank, "\u2003 ", 2, 2⟩] := by cbv
    rw [read]
    exact List.mem_cons_of_mem _ List.mem_cons_self
  refine ⟨accepted, tokens_of_respelled.1 text _ accepted before pieces rfl separated, met, ?_⟩
  exact tokens_of_respelled.2 _ _ _ (TextSource.ofList_shows _) _ _ met

end Scanner

end Fluent
