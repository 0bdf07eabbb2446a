/-
This file proves that blanks never matter to a program.
-/

import Fluent.Proofs.Parser.ViablePrefix
import Fluent.Proofs.Scanner.Respelling

namespace Fluent

open Lexer (Abuts Apart delimits)

namespace Grammar.Place

/-- Whether tokens of the kind lead to the place. -/
def isReachedBy : Place → Kind → Bool
  | .start, kind => kind = .semicolon
  | .target, kind | .receiver, kind | .method, kind => kind = .identifier
  | .define, kind => kind = .define
  | .dot, kind => kind = .dot
  | .opening, kind => kind = .openParen
  | .argument, kind => isArgument kind
  | .comma, kind => kind = .comma
  | .closing, kind => kind = .closeParen

theorem isReachedBy_of_next {place last : Place} {kind : Kind}
    (fits : place.next kind = some last) : last.isReachedBy kind := by
  cases place <;> grind [next, isReachedBy]

/-- What the grammar lets follow a word or a numeral is a mark that ends it. -/
theorem exists_mark_of_next {place last : Place} {kind following : Kind}
    (reached : place.isReachedBy kind) (unclosed : ¬ kind.closesItself)
    (fits : place.next following = some last) :
    ∃ mark, Lexer.mark? following = some mark ∧ delimits kind mark := by
  cases place with
  | target =>
    obtain rfl : kind = .identifier := of_decide_eq_true reached
    obtain rfl : following = .define := by grind [next]
    exact ⟨':', rfl, by decide⟩
  | receiver =>
    obtain rfl : kind = .identifier := of_decide_eq_true reached
    obtain rfl : following = .dot := by grind [next]
    exact ⟨'.', rfl, by decide⟩
  | method =>
    obtain rfl : kind = .identifier := of_decide_eq_true reached
    obtain rfl : following = .openParen := by grind [next]
    exact ⟨'(', rfl, by decide⟩
  | argument =>
    have ends (mark : Char) (either : mark = ',' ∨ mark = ')') : delimits kind mark := by
      have among := of_decide_eq_true reached
      simp only [List.mem_cons, List.not_mem_nil, or_false] at among
      rcases among with rfl | rfl | rfl | rfl | rfl | rfl <;> rcases either with rfl | rfl <;>
        decide
    have either : following = .comma ∨ following = .closeParen := by grind [next]
    rcases either with rfl | rfl
    · exact ⟨',', rfl, ends _ (.inl rfl)⟩
    · exact ⟨')', rfl, ends _ (.inr rfl)⟩
  | start | define | dot | opening | comma | closing =>
    obtain rfl := of_decide_eq_true reached
    exact absurd rfl unclosed

/-- The grammar puts no token behind one that would lose its end. -/
theorem abuts_of_next {place last : Place} {token next : Token}
    (reached : place.isReachedBy token.kind) (fits : place.next next.kind = some last)
    (alone : Lexer.tokens next.literal.toList = [next]) : Abuts token next := by
  by_cases closes : token.kind.closesItself
  · exact fun character _ => Lexer.delimits_of_closesItself closes character
  · obtain ⟨mark, marked, delimited⟩ := exists_mark_of_next reached closes fits
    exact Lexer.abuts_of_mark? alone marked delimited

/-- Tokens that the grammar lets follow one another may stand side by side. -/
theorem isChain_of_walk {place last : Place} {sequence : List Token}
    (walked : place.walk (sequence.map Token.kind) = some last)
    (alone : ∀ token ∈ sequence, Lexer.tokens token.literal.toList = [token]) :
    sequence.IsChain Abuts := by
  induction sequence generalizing place with
  | nil => exact .nil
  | cons token sequence hypothesis =>
    rw [List.map_cons, walk_cons, Option.bind_eq_some_iff] at walked
    obtain ⟨middle, fits, walked⟩ := walked
    obtain ⟨-, others⟩ := List.forall_mem_cons.1 alone
    refine List.isChain_cons.2 ⟨fun next found => ?_, hypothesis walked others⟩
    obtain ⟨rest, rfl⟩ := List.head?_eq_some_iff.1 found
    rw [List.map_cons, walk_cons, Option.bind_eq_some_iff] at walked
    obtain ⟨further, follows, -⟩ := walked
    exact abuts_of_next (isReachedBy_of_next fits) follows (others next List.mem_cons_self)

end Grammar.Place

/-- Whatever blanks stand between the tokens of a program, the program is the same. -/
theorem parse_of_respelled {text : String} {program : Program}
    (parsed : parse text = .ok program) :
    let scanned :=
      Scanner.scans (List.replicate (text.length + 1) false) (TextSource.ofString text)
    (∃ token ∈ scanned, token.kind = .finish) ∧
      ∀ (before : Blanks) (pieces : List Spaced),
        pieces.map Spaced.token = properTokens scanned →
        parse (Spaced.join before pieces) = .ok program := by
  intro scanned
  have shown : Viewed.Shows (TextSource.ofString text) (View.ofText text.toList) :=
    TextSource.ofList_shows text.toList
  have length : (View.ofText text.toList).ahead.length = text.length := String.length_toList
  have found : scanned = (View.ofText text.toList).scans (List.replicate (text.length + 1) false) :=
    Scanner.scans_eq shown _
  have proper : properTokens scanned = Lexer.tokens text.toList := by
    rw [found]
    exact View.properTokens_scans _ (by omega)
  refine ⟨?_, fun before pieces same => ?_⟩
  · rw [found]
    exact View.exists_finish_of_scans _ (by omega)
  · rw [proper] at same
    have walked := (accepts_iff_walk text).1 ⟨program, parsed⟩
    have legal : ∀ token ∈ Lexer.tokens text.toList, token.kind ≠ .illegal := fun token present =>
      Grammar.Place.ne_illegal_of_walk walked token.kind (List.mem_map_of_mem present)
    have chain := Grammar.Place.isChain_of_walk walked fun token present =>
      Lexer.tokens_literal present
    rw [← same, List.isChain_map] at chain
    have apart : pieces.IsChain Apart := chain.imp fun piece next abuts _ => abuts
    rw [parse_eq_ok_iff, Transcript.tokens_ofString, Lexer.tokens_join same legal apart before]
    rwa [parse_eq_ok_iff, Transcript.tokens_ofString] at parsed

/-- All blanks may go where they are many, and come where they are none. -/
theorem parse_of_respelled_tight :
    let text := "a := b . c( 1. ,true);"
    let token (kind : Kind) (literal : String) (blanks : Blanks) : Spaced :=
      ⟨⟨kind, literal⟩, blanks⟩
    let none : Blanks := ⟨[], rfl⟩
    let wide : Blanks := ⟨['\u2003', '\n'], by decide⟩
    let pieces : List Spaced :=
      [token .identifier "a" none, token .define ":=" none, token .identifier "b" none,
        token .dot "." none, token .identifier "c" none, token .openParen "(" none,
        token .float "1." none, token .comma "," none, token .trueWord "true" wide,
        token .closeParen ")" none, token .semicolon ";" wide]
    let program : Program := ⟨[⟨"a", "b", [⟨"c", [⟨.float, "1."⟩, ⟨.trueWord, "true"⟩]⟩]⟩]⟩
    parse text = .ok program ∧
      Spaced.join wide pieces = "\u2003\na:=b.c(1.,true\u2003\n);\u2003\n" ∧
      parse (Spaced.join wide pieces) = .ok program := by
  intro text token none wide pieces program
  have parsed : parse text = .ok program :=
    ((Parser.ofString text).program_eq_ok_iff program).2 (by decide +kernel)
  have scanned : pieces.map Spaced.token =
      properTokens (Scanner.scans (List.replicate (text.length + 1) false)
        (TextSource.ofString text)) := by cbv
  exact ⟨parsed, by decide, (parse_of_respelled parsed).2 wide pieces scanned⟩

end Fluent
