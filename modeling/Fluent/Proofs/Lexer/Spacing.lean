/-
This file proves that blanks between tokens do nothing but keep them apart.
-/

import Fluent.Proofs.Lexer.Lookahead
import Fluent.Proofs.Lexer.Names
import Mathlib.Data.List.Chain

namespace Fluent

/-- White space, as much as one likes of it. -/
structure Blanks where
  text : List Char
  blank : text.all isBlank

/-- A token as it is written, with the blanks behind it. -/
structure Spaced where
  token : Token
  behind : Blanks

namespace Spaced

def text (piece : Spaced) : List Char :=
  piece.token.literal.toList ++ piece.behind.text

/-- The text of the pieces in order, with blanks before the first. -/
def join (before : Blanks) (pieces : List Spaced) : String :=
  String.ofList (before.text ++ pieces.flatMap text)

end Spaced

namespace Lexer

/-- A blank ends every token but an illegal one, which may have been stopped by it. -/
theorem delimits_of_isBlank {kind : Kind} {character : Char} (blank : isBlank character)
    (proper : kind ≠ .blank) (legal : kind ≠ .illegal) : delimits kind character := by
  have outside : isWordPart character = false :=
    Bool.eq_false_iff.2 fun part => Bool.eq_false_iff.1 (isBlank_of_isWordPart part) blank
  have digit : character.isDigit = false := by
    refine Bool.eq_false_iff.2 fun digit => Bool.eq_false_iff.1 outside ?_
    simp [isWordPart, Char.isAlphanum, digit]
  have mark : isExponentMark character = false := by
    refine Bool.eq_false_iff.2 fun marked => Bool.eq_false_iff.1 outside ?_
    simp only [isExponentMark, Bool.or_eq_true, decide_eq_true_eq] at marked
    rcases marked with rfl | rfl <;> decide
  have point : character ≠ '.' := by
    rintro rfl
    exact absurd blank (by decide)
  cases kind <;> first | contradiction | simp [delimits, outside, digit, mark, point]

theorem tokens_blanks_append (blanks : Blanks) (text : List Char) :
    tokens (blanks.text ++ text) = tokens text := by
  obtain ⟨blanks, blank⟩ := blanks
  induction blanks with
  | nil => rfl
  | cons character blanks hypothesis =>
    rw [List.all_cons, Bool.and_eq_true] at blank
    rw [List.cons_append, tokens_of_isBlank blank.1, hypothesis blank.2]

/-- Whether a token keeps its end where another follows it at once. -/
def Abuts (token next : Token) : Prop :=
  ∀ character ∈ next.literal.toList.head?, delimits token.kind character

/-- Whether a piece is kept apart from the token behind it, by its blanks or without them. -/
def Apart (piece next : Spaced) : Prop :=
  piece.behind.text = [] → Abuts piece.token next.token

/-- Behind a piece comes a delimiter of its token, or nothing. -/
theorem delimits_head?_of_apart {piece : Spaced} {pieces : List Spaced}
    (proper : piece.token.kind ≠ .blank) (legal : piece.token.kind ≠ .illegal)
    (apart : ∀ next ∈ pieces.head?, Apart piece next)
    (some : ∀ next ∈ pieces, next.token.literal.toList ≠ []) :
    ∀ character ∈ (piece.behind.text ++ pieces.flatMap Spaced.text).head?,
      delimits piece.token.kind character := by
  cases blanks : piece.behind.text with
  | nil =>
    cases pieces with
    | nil => exact nofun
    | cons next others =>
      have first := some next List.mem_cons_self
      rw [List.nil_append, List.flatMap_cons, Spaced.text, List.append_assoc,
        List.head?_append_of_ne_nil _ first]
      exact apart next rfl blanks
  | cons blank others =>
    have found := piece.behind.blank
    rw [blanks, List.all_cons, Bool.and_eq_true] at found
    rintro character ⟨⟩
    exact delimits_of_isBlank found.1 proper legal

/-- Tokens that are kept apart are read as they were written, whatever blanks stand between. -/
theorem tokens_flatMap_text {pieces : List Spaced}
    (alone : ∀ piece ∈ pieces, tokens piece.token.literal.toList = [piece.token])
    (legal : ∀ piece ∈ pieces, piece.token.kind ≠ .illegal) (apart : pieces.IsChain Apart) :
    tokens (pieces.flatMap Spaced.text) = pieces.map Spaced.token := by
  induction pieces with
  | nil => exact tokens.eq_1
  | cons piece pieces hypothesis =>
    obtain ⟨one, others⟩ := List.forall_mem_cons.1 alone
    obtain ⟨legalOne, legalOthers⟩ := List.forall_mem_cons.1 legal
    obtain ⟨apartOne, apartOthers⟩ := List.isChain_cons.1 apart
    have some : ∀ next ∈ pieces, next.token.literal.toList ≠ [] := fun next present none =>
      (tokens_eq_singleton_iff.1 (others next present)).1 (String.toList_eq_nil_iff.1 none)
    have delimited := delimits_head?_of_apart (tokens_eq_singleton_iff.1 one).2.1 legalOne apartOne
      some
    rw [List.flatMap_cons, Spaced.text, List.append_assoc, tokens_literal_append one delimited,
      tokens_blanks_append, hypothesis others legalOthers apartOthers, List.map_cons]

/-- Tokens that are kept apart are the tokens of every text that they are written as. -/
theorem tokens_join {text : List Char} {pieces : List Spaced}
    (same : pieces.map Spaced.token = tokens text)
    (legal : ∀ token ∈ tokens text, token.kind ≠ .illegal) (apart : pieces.IsChain Apart)
    (before : Blanks) : tokens (Spaced.join before pieces).toList = tokens text := by
  have present (piece : Spaced) (among : piece ∈ pieces) : piece.token ∈ tokens text :=
    same ▸ List.mem_map_of_mem among
  rw [Spaced.join, String.toList_ofList, tokens_blanks_append, ← same]
  exact tokens_flatMap_text (fun piece among => tokens_literal (present piece among))
    (fun piece among => legal _ (present piece among)) apart

/-- Token literals with a space behind each. -/
def spaced (sequence : List Token) : List Char :=
  sequence.flatMap fun token => token.literal.toList ++ [' ']

/-- Tokens that are written one by one with spaces between them are read as they were written. -/
theorem tokens_spaced {sequence : List Token}
    (alone : ∀ token ∈ sequence, tokens token.literal.toList = [token])
    (legal : ∀ token ∈ sequence, token.kind ≠ .illegal) :
    tokens (spaced sequence) = sequence := by
  let piece (token : Token) : Spaced := ⟨token, [' '], rfl⟩
  have split : (sequence.map piece).flatMap Spaced.text = spaced sequence := List.flatMap_map ..
  have same : (sequence.map piece).map Spaced.token = sequence := by
    rw [List.map_map]
    exact List.map_id sequence
  have apart : (sequence.map piece).IsChain Apart := by
    refine List.Pairwise.isChain (List.pairwise_map.2 (List.pairwise_of_forall ?_))
    exact fun token next none => absurd none (List.cons_ne_nil _ _)
  have read := tokens_flatMap_text (List.forall_mem_map.2 alone) (List.forall_mem_map.2 legal) apart
  rwa [split, same] at read

theorem delimits_of_closesItself {kind : Kind} (closes : kind.closesItself) (character : Char) :
    delimits kind character := by
  cases kind <;> first | rfl | cases closes

/-- The mark that a token of the kind is or begins with, where there is one. -/
def mark? : Kind → Option Char
  | .define => some ':'
  | .dot => some '.'
  | .comma => some ','
  | .semicolon => some ';'
  | .openParen => some '('
  | .closeParen => some ')'
  | _ => none

theorem mark?_classify (kind : Kind) (literal : String) :
    mark? (classify kind literal) = mark? kind := by
  by_cases word : kind = .identifier
  · rw [classify, if_pos word, word]
    split_ifs <;> rfl
  · rw [classify, if_neg word]

/-- A mark opens the kind that has it, and no other character does. -/
theorem mark?_first (character : Char) :
    match first character with
    | .opens state => state = .colon → character = ':'
    | .alone kind => kind ≠ .illegal → mark? kind = some character := by
  unfold first
  split_ifs
  · exact nofun
  · exact nofun
  · exact nofun
  · split
    next state opens =>
      split at opens <;> cases opens <;> first | exact fun _ => rfl | exact nofun
    next kind stands =>
      split at stands <;> cases stands
      case h_10 => exact fun legal => absurd rfl legal
      all_goals exact fun _ => rfl

/-- A token that has a mark begins with it. -/
theorem eq_of_mark? {character mark : Char} {rest : List Char}
    (marked : mark? (readToken (character :: rest)).kind = some mark) : character = mark := by
  have opening := mark?_first character
  cases opened : first character with
  | opens state =>
    have among := kind_readFrom_mem_outcomes state rest
    rw [readToken_of_opens opened] at marked
    dsimp only [Reading.classified, Reading.prepend] at marked
    rw [mark?_classify] at marked
    obtain rfl : state = .colon := by
      cases state <;> grind [State.outcomes, mark?]
    have define : mark = ':' := by grind [State.outcomes, mark?]
    rw [opened] at opening
    rw [define, opening rfl]
  | alone kind =>
    rw [opened] at opening
    rw [readToken_of_alone opened] at marked
    have legal : kind ≠ .illegal := by
      rintro rfl
      cases marked
    exact Option.some.inj ((opening legal).symm.trans marked)

/-- What ends a token before a mark is met by every token that has the mark. -/
theorem abuts_of_mark? {token next : Token} {mark : Char}
    (alone : tokens next.literal.toList = [next]) (marked : mark? next.kind = some mark)
    (delimited : delimits token.kind mark) : Abuts token next := by
  intro character found
  obtain ⟨rest, spelled⟩ := List.head?_eq_some_iff.1 found
  obtain ⟨-, -, kind, -⟩ := tokens_eq_singleton_iff.1 alone
  rw [← kind, spelled] at marked
  rwa [eq_of_mark? marked]

end Lexer

end Fluent
