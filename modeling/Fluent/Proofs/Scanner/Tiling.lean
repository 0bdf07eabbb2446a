/-
This file proves that scanning takes a text apart without a gap.
-/

import Mathlib
import Fluent.Proofs.Lexer.Truncation
import Fluent.Proofs.Source.Bytes

namespace Fluent

open CharSource Viewed

/-- A token as a scan leaves it, with its place. -/
structure Scanned where
  kind : Kind
  literal : String
  byteOffset : Nat
  charOffset : Nat
  deriving DecidableEq, Repr

/-- The tokens of a sequence of scans, each of which ignores blanks or not. -/
def Scanner.scans {σ : Type} [CharSource σ] : List Bool → σ → List Scanned
  | [], _ => []
  | ignoreBlanks :: flags, source =>
    match scan ignoreBlanks source with
    | (kind, after) =>
      ⟨kind, tokenText after, byteOffset after, charOffset after⟩ :: scans flags after

/-- Each token comes behind the one before and the blanks that it ignores. -/
inductive Tiles : List Char → List Char → List Bool → List Scanned → Prop
  | done {earlier ahead : List Char} : Tiles earlier ahead [] []
  | token {earlier ahead blanks literal later : List Char} {ignoreBlanks : Bool}
      {flags : List Bool} {kind : Kind} {tokens : List Scanned}
      (ignored : blanks = if ignoreBlanks then ahead.takeWhile isBlank else [])
      (split : ahead = blanks ++ (literal ++ later)) (some : literal ≠ [])
      (proper : kind ≠ .finish) (others : Tiles (earlier ++ blanks ++ literal) later flags tokens) :
      Tiles earlier ahead (ignoreBlanks :: flags)
        (⟨kind, String.ofList literal, Utf8.size (earlier ++ blanks), (earlier ++ blanks).length⟩ ::
          tokens)
  | finish {earlier ahead : List Char} {ignoreBlanks : Bool} {flags : List Bool}
      {tokens : List Scanned}
      (ignored : ahead = if ignoreBlanks then ahead.takeWhile isBlank else [])
      (others : Tiles (earlier ++ ahead) [] flags tokens) :
      Tiles earlier ahead (ignoreBlanks :: flags)
        (⟨.finish, "", Utf8.size (earlier ++ ahead), (earlier ++ ahead).length⟩ :: tokens)

namespace Tiles

variable {earlier ahead : List Char} {flags : List Bool} {tokens : List Scanned}

/-- Where nothing is ahead, every scan finds the end. -/
theorem of_ended (tiles : Tiles earlier [] flags tokens) :
    ∀ token ∈ tokens, token.kind = .finish ∧ token.literal = "" := by
  generalize nothing : ([] : List Char) = ahead at tiles
  induction tiles with
  | done => exact nofun
  | token ignored split some proper others hypothesis =>
    subst nothing
    exact absurd (List.append_eq_nil_iff.1 (List.append_eq_nil_iff.1 split.symm).2).1 some
  | finish ignored others hypothesis =>
    exact List.forall_mem_cons.2 ⟨⟨rfl, rfl⟩, hypothesis rfl⟩

/-- Every scan takes at least a character, until one finds the end, and so does every later one. -/
theorem exists_end (tiles : Tiles earlier ahead flags tokens) :
    ∃ count ≤ ahead.length,
      (∀ token ∈ tokens.take count, token.kind ≠ .finish ∧ token.literal ≠ "") ∧
      ∀ token ∈ tokens.drop count, token.kind = .finish ∧ token.literal = "" := by
  induction tiles with
  | done => exact ⟨0, Nat.zero_le _, nofun, nofun⟩
  | @token earlier ahead blanks literal later ignoreBlanks flags kind tokens ignored split some
      proper others hypothesis =>
    obtain ⟨count, bound, before, behind⟩ := hypothesis
    have length := congrArg List.length split
    have positive := List.length_pos_iff.2 some
    rw [List.length_append, List.length_append] at length
    refine ⟨count + 1, by omega, List.forall_mem_cons.2 ⟨⟨proper, fun empty => some ?_⟩, before⟩,
      behind⟩
    exact String.ofList_eq_empty_iff.1 empty
  | finish ignored others hypothesis =>
    exact ⟨0, Nat.zero_le _, nofun, List.forall_mem_cons.2 ⟨⟨rfl, rfl⟩, others.of_ended⟩⟩

/-- Where no blanks are ignored, the literals up to the end are the text. -/
theorem flatMap_literal (tiles : Tiles earlier ahead flags tokens)
    (all : ∀ ignoreBlanks ∈ flags, ignoreBlanks = false)
    (ended : ∃ token ∈ tokens, token.kind = .finish) :
    tokens.flatMap (fun token => token.literal.toList) = ahead := by
  induction tiles with
  | done =>
    obtain ⟨token, present, -⟩ := ended
    cases present
  | token ignored split some proper others hypothesis =>
    obtain ⟨rfl, later⟩ := List.forall_mem_cons.1 all
    obtain ⟨token, present, finished⟩ := ended
    have behind := (List.mem_cons.1 present).resolve_left fun same =>
      proper (by rw [← finished, same])
    rw [List.flatMap_cons, hypothesis later ⟨token, behind, finished⟩, String.toList_ofList, split,
      ignored]
    rfl
  | finish ignored others hypothesis =>
    obtain ⟨rfl, -⟩ := List.forall_mem_cons.1 all
    have nothing : _ = [] := ignored
    rw [nothing, List.flatMap_eq_nil_iff]
    refine List.forall_mem_cons.2 ⟨rfl, fun token present => ?_⟩
    rw [(others.of_ended token present).2]
    rfl

end Tiles

/-- A blank token goes where the scan that meets it ignores blanks. -/
def sift : List Bool → List Scanned → List Scanned
  | ignoreBlanks :: flags, token :: tokens =>
    if ignoreBlanks ∧ token.kind = .blank then sift (ignoreBlanks :: flags) tokens
    else token :: sift flags tokens
  | _, _ => []

theorem sift_of_ignored {flags : List Bool} {token : Scanned} (blank : token.kind = .blank)
    (tokens : List Scanned) :
    sift (true :: flags) (token :: tokens) = sift (true :: flags) tokens := by
  rw [sift, if_pos ⟨rfl, blank⟩]

theorem sift_of_kept {ignoreBlanks : Bool} {flags : List Bool} {token : Scanned}
    (kept : ¬ (ignoreBlanks ∧ token.kind = .blank)) (tokens : List Scanned) :
    sift (ignoreBlanks :: flags) (token :: tokens) = token :: sift flags tokens := by
  rw [sift, if_neg kept]

namespace View

/-- The view that a scan reads its token from. -/
def skip (ignoreBlanks : Bool) (view : View) : View :=
  if ignoreBlanks then view.afterBlanks else view

/-- The token of a view, of the given kind. -/
def scanned (kind : Kind) (view : View) : Scanned :=
  ⟨kind, String.ofList view.token, view.byteStart, view.charStart⟩

/-- The tokens of a sequence of scans of a source that shows a view. -/
def scans : List Bool → View → List Scanned
  | [], _ => []
  | ignoreBlanks :: flags, view =>
    let start := view.skip ignoreBlanks
    start.afterToken.scanned (Lexer.readToken start.ahead).kind :: scans flags start.afterToken

/-- The next token of a view comes behind these characters. -/
def Follows (view : View) (earlier : List Char) : Prop :=
  view.startToken.byteStart = Utf8.size earlier ∧ view.startToken.charStart = earlier.length

variable {view : View} {earlier : List Char}

theorem Follows.afterToken (follows : view.Follows earlier) :
    view.afterToken.Follows (earlier ++ (Lexer.readToken view.ahead).literal) := by
  rw [Follows, Utf8.size_append, List.length_append, ← follows.1, ← follows.2]
  exact ⟨rfl, rfl⟩

theorem Follows.scanned (follows : view.Follows earlier) (kind : Kind) :
    view.afterToken.scanned kind =
      ⟨kind, String.ofList (Lexer.readToken view.ahead).literal, Utf8.size earlier,
        earlier.length⟩ := by
  rw [← follows.1, ← follows.2]
  rfl

/-- The blanks that a scan ignores are all that come next. -/
theorem Follows.skip (follows : view.Follows earlier) (ignoreBlanks : Bool) :
    ∃ blanks, (blanks = if ignoreBlanks then view.ahead.takeWhile isBlank else []) ∧
      view.ahead = blanks ++ (view.skip ignoreBlanks).ahead ∧
      (view.skip ignoreBlanks).Follows (earlier ++ blanks) := by
  cases ignoreBlanks with
  | false => exact ⟨[], rfl, rfl, by rwa [List.append_nil]⟩
  | true =>
    refine ⟨view.ahead.takeWhile isBlank, rfl, ?_⟩
    show view.ahead = _ ++ view.afterBlanks.ahead ∧ view.afterBlanks.Follows _
    rw [afterBlanks]
    split
    next blank =>
      obtain ⟨literal, rest⟩ := Lexer.readToken_of_kind_blank blank
      rw [← literal]
      exact ⟨(Lexer.readToken_literal_append_rest view.ahead).symm, follows.afterToken⟩
    next proper =>
      rw [(Lexer.takeWhile_isBlank_of_kind_ne proper).1, List.append_nil]
      exact ⟨rfl, follows⟩

theorem Follows.tiles (follows : view.Follows earlier) (flags : List Bool) :
    Tiles earlier view.ahead flags (view.scans flags) := by
  induction flags generalizing view earlier with
  | nil => exact .done
  | cons ignoreBlanks flags hypothesis =>
    obtain ⟨blanks, ignored, split, start⟩ := follows.skip ignoreBlanks
    have others := hypothesis start.afterToken
    change Tiles _ (Lexer.readToken (view.skip ignoreBlanks).ahead).rest _ _ at others
    rw [scans, start.scanned]
    cases ahead : (view.skip ignoreBlanks).ahead with
    | nil =>
      rw [ahead, List.append_nil] at split
      rw [ahead, ← split] at others
      rw [← split] at ignored ⊢
      exact .finish ignored (List.append_nil (earlier ++ view.ahead) ▸ others)
    | cons character rest =>
      obtain ⟨later, literal⟩ := Lexer.exists_literal_readToken character rest
      rw [ahead] at split others
      refine .token ignored ?_ ?_ (Lexer.kind_readToken_cons character rest).1 others
      · rw [split, Lexer.readToken_literal_append_rest]
      · rw [literal]
        exact List.cons_ne_nil character later

/-- A scan that does not meet a blank token to ignore starts at once. -/
theorem skip_of_kept {ignoreBlanks : Bool}
    (kept : ¬ (ignoreBlanks ∧ (Lexer.readToken view.ahead).kind = .blank)) :
    view.skip ignoreBlanks = view := by
  cases ignoreBlanks with
  | false => rfl
  | true => exact if_neg fun blank => kept ⟨rfl, blank⟩

theorem scans_replicate_succ (view : View) (count : Nat) :
    view.scans (List.replicate (count + 1) false) =
      view.afterToken.scanned (Lexer.readToken view.ahead).kind ::
        view.afterToken.scans (List.replicate count false) := rfl

/-- Scans that ignore blanks find what others do, less the blanks met meanwhile. -/
theorem scans_eq_sift (view : View) (flags : List Bool) {count : Nat}
    (enough : 2 * flags.length ≤ count) :
    view.scans flags = sift flags (view.scans (List.replicate count false)) := by
  induction flags generalizing view count with
  | nil => rw [scans, sift]; exact nofun
  | cons ignoreBlanks flags hypothesis =>
    rw [List.length_cons] at enough
    obtain ⟨count, rfl⟩ : ∃ left, count = left + 2 := ⟨count - 2, by omega⟩
    rw [scans_replicate_succ, scans]
    by_cases ignored : ignoreBlanks ∧ (Lexer.readToken view.ahead).kind = .blank
    · obtain ⟨rfl, blank⟩ := ignored
      have behind : view.skip true = view.afterToken := if_pos blank
      have proper := view.kind_afterBlanks_ne_blank
      rw [afterBlanks, if_pos blank] at proper
      rw [sift_of_ignored blank, scans_replicate_succ, behind,
        sift_of_kept fun both => proper both.2,
        ← hypothesis view.afterToken.afterToken (by omega)]
    · rw [sift_of_kept ignored, skip_of_kept ignored, ← hypothesis view.afterToken (by omega)]

end View

section

variable {σ : Type} [CharSource σ] {source : σ} {view : View}

/-- Sources that show a view are scanned as the view is. -/
theorem Scanner.scans_eq [Viewed σ] (shown : Shows source view) (flags : List Bool) :
    scans flags source = view.scans flags := by
  induction flags generalizing source view with
  | nil => rfl
  | cons ignoreBlanks flags hypothesis =>
    have both : (scan ignoreBlanks source).1 =
          (Lexer.readToken (view.skip ignoreBlanks).ahead).kind ∧
        Shows (scan ignoreBlanks source).2 (view.skip ignoreBlanks).afterToken := by
      cases ignoreBlanks with
      | true => exact scan_shows shown
      | false =>
        rw [scan_false]
        exact token_shows shown
    rw [scans, View.scans]
    generalize scan ignoreBlanks source = result at both
    obtain ⟨kind, after⟩ := result
    obtain ⟨same, last⟩ := both
    dsimp only at same last ⊢
    rw [hypothesis last, same, Viewed.tokenText last, Viewed.byteOffset last,
      Viewed.charOffset last]
    rfl

end

/-- Scanning takes a text apart without a gap, and ignoring blanks leaves out only these. -/
theorem Scanner.scans_tile (text : String) (capacity : Nat) (positive : 0 < capacity)
    (flags : List Bool) :
    let reader := Reader.ofBytes capacity positive (Utf8.encode text.toList) .finished
    let source := TextSource.ofString text
    let tokens := scans flags source
    scans flags (ByteSource.ofReader reader) = tokens ∧
      Tiles [] text.toList flags tokens ∧
      (∃ count ≤ text.length,
        (∀ token ∈ tokens.take count, token.kind ≠ .finish ∧ token.literal ≠ "") ∧
        ∀ token ∈ tokens.drop count, token.kind = .finish ∧ token.literal = "") ∧
      ((∀ ignoreBlanks ∈ flags, ignoreBlanks = false) →
        (∃ token ∈ tokens, token.kind = .finish) →
        String.join (tokens.map Scanned.literal) = text) ∧
      ∀ count, 2 * flags.length ≤ count →
        tokens = sift flags (scans (List.replicate count false) source) := by
  intro reader source tokens
  have shown : Shows source (View.ofText text.toList) := TextSource.ofList_shows text.toList
  have decoded := ByteSource.ofReader_shows reader
  rw [View.ofReader_encode rfl rfl] at decoded
  have follows : (View.ofText text.toList).Follows [] := ⟨rfl, rfl⟩
  have tiles : Tiles [] text.toList flags tokens := by
    have tiles := follows.tiles flags
    rwa [← scans_eq shown] at tiles
  refine ⟨?_, tiles, ?_, fun all ended => ?_, fun count enough => ?_⟩
  · exact (scans_eq decoded flags).trans (scans_eq shown flags).symm
  · rw [← String.length_toList]
    exact tiles.exists_end
  · rw [← String.toList_inj, String.toList_join, List.flatMap_map]
    exact tiles.flatMap_literal all ended
  · have sifted := (View.ofText text.toList).scans_eq_sift flags enough
    rwa [← scans_eq shown, ← scans_eq shown] at sifted

theorem Scanner.scans_tile_multibyte :
    let text := "é  b \"€"
    let flags := [true, true, false, true, false]
    let reader := Reader.ofBytes 3 (by decide) (Utf8.encode text.toList) .finished
    0 < 3 ∧
      scans flags (ByteSource.ofReader reader) =
        [⟨.illegal, "é", 0, 0⟩, ⟨.identifier, "b", 4, 3⟩, ⟨.blank, " ", 5, 4⟩,
          ⟨.illegal, "\"€", 6, 5⟩, ⟨.finish, "", 10, 7⟩] ∧
      scans flags (ByteSource.ofReader reader) = scans flags (TextSource.ofString text) :=
  ⟨by decide, by cbv, (scans_tile _ 3 (by decide) _).1⟩

end Fluent
