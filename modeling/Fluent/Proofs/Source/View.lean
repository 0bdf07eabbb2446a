/-
This file holds the text that a source will still deliver, and how its input ends.
-/

import Fluent.Lexeme
import Fluent.Proofs.Lexer.Boundary
import Fluent.Proofs.Parser.Derivation

namespace Fluent

/-- How an input ends. -/
inductive Tail where
  /-- In good order, or the fault has been reported. -/
  | sound
  /-- A fault cuts the input short behind what is ahead. -/
  | broken (fault : Fault)
  /-- The fault has been met and not been reported. -/
  | met (fault : Fault)
  deriving DecidableEq, Repr

/-- The tail once the end of the input has been met. -/
def Tail.reach : Tail → Tail
  | .sound => .sound
  | .broken fault | .met fault => .met fault

/-- What can be told of a source. -/
structure View where
  /-- The characters of the token, the earliest first. -/
  token : List Char
  /-- The characters that are still to come. -/
  ahead : List Char
  /-- The start of the token, in bytes and in characters. -/
  byteStart : Nat
  charStart : Nat
  tail : Tail
  deriving DecidableEq, Repr

namespace View

def read (view : View) : Option Char × View :=
  match view.ahead with
  | [] => (none, { view with tail := view.tail.reach })
  | character :: rest =>
    (some character, { view with token := view.token ++ [character], ahead := rest })

def startToken (view : View) : View :=
  ⟨[], view.ahead, view.byteStart + Utf8.size view.token, view.charStart + view.token.length,
    view.tail⟩

def takeFault (view : View) : Option Fault × View :=
  match view.tail with
  | .met fault => (some fault, { view with tail := .sound })
  | _ => (none, view)

/-- The view once a reading of what is ahead has been taken off it. -/
def consume (view : View) (reading : Lexer.Reading) : View :=
  { view with
    token := view.token ++ reading.literal
    ahead := reading.rest
    tail := if reading.ended then view.tail.reach else view.tail }

theorem read_nil {view : View} (ended : view.ahead = []) :
    view.read = (none, { view with tail := view.tail.reach }) := by
  rw [read, ended]

theorem read_cons {view : View} {character : Char} {rest : List Char}
    (found : view.ahead = character :: rest) :
    view.read =
      (some character, { view with token := view.token ++ [character], ahead := rest }) := by
  rw [read, found]

end View

/-- Every operation acts on the view of a source as it acts on the source. -/
class Viewed (σ : Type) [CharSource σ] where
  Shows : σ → View → Prop
  read : ∀ {source view}, Shows source view →
    (CharSource.read source).1 = view.read.1 ∧ Shows (CharSource.read source).2 view.read.2
  unread : ∀ {source view}, Shows source view → (CharSource.read source).1 ≠ none →
    Shows (CharSource.unread (CharSource.read source).2) view
  startToken : ∀ {source view}, Shows source view →
    Shows (CharSource.startToken source) view.startToken
  tokenText : ∀ {source view}, Shows source view →
    CharSource.tokenText source = String.ofList view.token
  byteOffset : ∀ {source view}, Shows source view → CharSource.byteOffset source = view.byteStart
  charOffset : ∀ {source view}, Shows source view → CharSource.charOffset source = view.charStart
  takeFault : ∀ {source view}, Shows source view →
    (CharSource.takeFault source).1 = view.takeFault.1 ∧
      Shows (CharSource.takeFault source).2 view.takeFault.2

variable {σ : Type} [CharSource σ] {source : σ} {view : View}

namespace Lexer

theorem run_eq (state : State) (source : σ) :
    run state source =
      match CharSource.read source with
      | (none, after) => (state.atEnd, after)
      | (some character, after) =>
        match step state character with
        | .advance next => run next after
        | .close kind => (kind, after)
        | .stop kind => (kind, CharSource.unread after) := by
  rw [run]
  split
  next found => rw [found]
  next found => exact found ▸ rfl

end Lexer

/-- A token that is no blank is scanned whether or not blanks are ignored. -/
theorem Scanner.scan_of_ne_blank (proper : (token source).1 ≠ .blank)
    (ignoreBlanks : Bool) : scan ignoreBlanks source = token source := by
  rw [scan]
  split
  next after blank => exact absurd (congrArg Prod.fst blank) proper
  next found => exact found.symm

theorem Scanner.scan_false (source : σ) : scan false source = token source := by
  rw [scan]
  split
  next found => exact found.symm
  next found => exact found.symm

theorem Transcript.tokens_of_finish {after : σ}
    (scanned : Scanner.scan true source = (.finish, after)) :
    (Transcript.ofSource source).tokens = [] := by
  rw [Transcript.ofSource]
  split
  next kind last found =>
    obtain ⟨rfl, rfl⟩ := Prod.mk.inj (scanned.symm.trans found)
    rfl

theorem Transcript.tokens_of_scan {kind : Kind} {after : σ}
    (scanned : Scanner.scan true source = (kind, after)) (going : kind ≠ .finish) :
    (Transcript.ofSource source).tokens =
      ⟨kind, CharSource.tokenText after⟩ :: (Transcript.ofSource after).tokens := by
  rw [Transcript.ofSource]
  split
  next kind last found =>
    obtain ⟨rfl, rfl⟩ := Prod.mk.inj (scanned.symm.trans found)
    rw [dif_neg going]
    rfl

open CharSource Viewed

variable [Viewed σ]

/-- Where nothing is ahead, a read meets the end. -/
theorem Viewed.read_nil (shown : Shows source view) (ended : view.ahead = []) :
    (CharSource.read source).1 = none ∧
      Shows (CharSource.read source).2 { view with tail := view.tail.reach } := by
  have both := Viewed.read shown
  rwa [View.read_nil ended] at both

theorem Viewed.read_cons {character : Char} {rest : List Char} (shown : Shows source view)
    (found : view.ahead = character :: rest) :
    (CharSource.read source).1 = some character ∧
      Shows (CharSource.read source).2
        { view with token := view.token ++ [character], ahead := rest } := by
  have both := Viewed.read shown
  rwa [View.read_cons found] at both

/-- What a view makes of a reading does not depend on where the literal was split. -/
theorem View.consume_prepend (view : View) (character : Char) (rest : List Char)
    (reading : Lexer.Reading) :
    view.consume (reading.prepend [character]) =
      { view with token := view.token ++ [character], ahead := rest : View }.consume reading := by
  rw [View.consume, View.consume, List.append_assoc]
  rfl

namespace Lexer

/-- The automaton runs over a source as it reads from the text ahead. -/
theorem run_shows (state : State) (shown : Shows source view) :
    (run state source).1 = (readFrom state view.ahead).kind ∧
      Shows (run state source).2 (view.consume (readFrom state view.ahead)) := by
  obtain ⟨token, ahead, byteStart, charStart, tail⟩ := view
  induction ahead generalizing source state token with
  | nil =>
    obtain ⟨found, after⟩ := Viewed.read_nil shown rfl
    rw [run_eq]
    generalize CharSource.read source = result at found after
    obtain ⟨character, left⟩ := result
    obtain rfl : character = none := found
    simpa [readFrom, View.consume] using after
  | cons character rest hypothesis =>
    obtain ⟨found, after⟩ := Viewed.read_cons shown rfl
    have undone := Viewed.unread shown (by rw [found]; exact Option.some_ne_none character)
    rw [run_eq]
    generalize CharSource.read source = result at found after undone
    obtain ⟨read, left⟩ := result
    obtain rfl : read = some character := found
    dsimp only
    cases moved : step state character with
    | advance next =>
      rw [readFrom_of_advance moved, View.consume_prepend _ character rest]
      exact hypothesis next (token ++ [character]) after
    | close kind =>
      rw [readFrom_of_close moved]
      exact ⟨rfl, after⟩
    | stop kind =>
      rw [readFrom_of_stop moved]
      simpa [View.consume] using undone

end Lexer

/-- The view once the next token has been read, blanks included. -/
def View.afterToken (view : View) : View :=
  view.startToken.consume (Lexer.readToken view.ahead)

/-- The view behind blanks that are next. -/
def View.afterBlanks (view : View) : View :=
  if (Lexer.readToken view.ahead).kind = .blank then view.afterToken else view

theorem Scanner.token_shows (shown : Shows source view) :
    (token source).1 = (Lexer.readToken view.ahead).kind ∧
      Shows (token source).2 view.afterToken := by
  have started := Viewed.startToken shown
  obtain ⟨former, ahead, byteStart, charStart, tail⟩ := view
  cases ahead with
  | nil =>
    obtain ⟨found, after⟩ := Viewed.read_nil started rfl
    rw [token]
    generalize CharSource.read (CharSource.startToken source) = result at found after
    obtain ⟨read, left⟩ := result
    obtain rfl : read = none := found
    exact ⟨rfl, after⟩
  | cons character rest =>
    obtain ⟨found, after⟩ := Viewed.read_cons started rfl
    rw [token]
    generalize CharSource.read (CharSource.startToken source) = result at found after
    obtain ⟨read, left⟩ := result
    obtain rfl : read = some character := found
    dsimp only
    cases opened : Lexer.first character with
    | opens state =>
      obtain ⟨kind, last⟩ := Lexer.run_shows state after
      rw [View.afterToken, Lexer.readToken_of_opens opened]
      refine ⟨?_, last⟩
      show Lexer.classify (Lexer.run state left).1 (CharSource.tokenText (Lexer.run state left).2)
        = _
      rw [kind, Viewed.tokenText last]
      rfl
    | alone kind =>
      rw [View.afterToken, Lexer.readToken_of_alone opened]
      exact ⟨rfl, after⟩

/-- Behind blanks comes no blank. -/
theorem View.kind_afterBlanks_ne_blank (view : View) :
    (Lexer.readToken view.afterBlanks.ahead).kind ≠ .blank := by
  rw [afterBlanks]
  split
  next blank =>
    obtain ⟨former, ahead, byteStart, charStart, tail⟩ := view
    cases ahead with
    | nil => cases blank
    | cons character rest =>
      have opening := (Lexer.kind_readToken_cons character rest).2 blank
      show (Lexer.readToken (Lexer.readToken (character :: rest)).rest).kind ≠ .blank
      rw [(Lexer.readToken_of_isBlank opening rest).2]
      intro again
      cases left : rest.dropWhile isBlank with
      | nil =>
        rw [left] at again
        cases again
      | cons next later =>
        rw [left] at again
        have blankNext := (Lexer.kind_readToken_cons next later).2 again
        have proper := List.head_dropWhile_not (p := isBlank) (l := rest) (by simp [left])
        simp [left, blankNext] at proper
  next proper => exact proper

/-- Blanks do not matter to the tokens that are ahead. -/
theorem View.tokens_afterBlanks (view : View) :
    Lexer.tokens view.afterBlanks.ahead = Lexer.tokens view.ahead := by
  rw [afterBlanks]
  split
  next blank =>
    rw [Lexer.tokens_eq_of_readToken view.ahead, if_pos (by simp [blank])]
    rfl
  next => rfl

/-- At the end there are no tokens ahead. -/
theorem View.tokens_of_finish {view : View}
    (finish : (Lexer.readToken view.afterBlanks.ahead).kind = .finish) :
    Lexer.tokens view.ahead = [] := by
  rw [← view.tokens_afterBlanks, Lexer.eq_nil_of_kind_finish finish, Lexer.tokens]

/-- Before the end, the tokens ahead are the one behind the blanks and those behind this one. -/
theorem View.tokens_of_going {view : View}
    (going : (Lexer.readToken view.afterBlanks.ahead).kind ≠ .finish) :
    Lexer.tokens view.ahead =
      ⟨(Lexer.readToken view.afterBlanks.ahead).kind,
        String.ofList view.afterBlanks.afterToken.token⟩ ::
          Lexer.tokens view.afterBlanks.afterToken.ahead := by
  have solid : (Lexer.readToken view.afterBlanks.ahead).kind ∉ [.blank, .finish] := by
    simp [view.kind_afterBlanks_ne_blank, going]
  rw [← view.tokens_afterBlanks, Lexer.tokens_eq_of_readToken, if_neg solid]
  rfl

theorem Scanner.scan_shows (shown : Shows source view) :
    (scan true source).1 = (Lexer.readToken view.afterBlanks.ahead).kind ∧
      Shows (scan true source).2 view.afterBlanks.afterToken := by
  obtain ⟨kind, after⟩ := token_shows shown
  rw [scan]
  generalize token source = result at kind after
  obtain ⟨found, left⟩ := result
  obtain rfl : found = (Lexer.readToken view.ahead).kind := kind
  by_cases blank : (Lexer.readToken view.ahead).kind = .blank
  · rw [View.afterBlanks, if_pos blank, blank]
    exact token_shows after
  · rw [View.afterBlanks, if_neg blank]
    split
    next same => exact absurd (congrArg Prod.fst same) blank
    next same =>
      cases same
      exact ⟨rfl, after⟩

/-- A scan takes what is read from the text ahead, if that is no blank. -/
theorem Scanner.scan_of_readToken {kind : Kind} {literal rest : List Char} {ended : Bool}
    (shown : Shows source view) (read : Lexer.readToken view.ahead = ⟨kind, literal, rest, ended⟩)
    (proper : kind ≠ .blank) (ignoreBlanks : Bool) :
    (scan ignoreBlanks source).1 = kind ∧
      CharSource.tokenText (scan ignoreBlanks source).2 = String.ofList literal ∧
      Shows (scan ignoreBlanks source).2 { view.startToken with
        token := literal
        ahead := rest
        tail := if ended then view.tail.reach else view.tail } := by
  obtain ⟨found, after⟩ := token_shows shown
  rw [read] at found
  rw [View.afterToken, read] at after
  rw [scan_of_ne_blank (found ▸ proper) ignoreBlanks]
  exact ⟨found, Viewed.tokenText after, after⟩

/-- What a source delivers to the parser are the tokens of the text ahead. -/
theorem Transcript.tokens_ofSource (shown : Shows source view) :
    (Transcript.ofSource source).tokens = Lexer.tokens view.ahead := by
  induction source using Transcript.ofSource.induct generalizing view with
  | case1 source after scanned =>
    obtain ⟨kind, -⟩ := Scanner.scan_shows shown
    rw [scanned] at kind
    rw [Transcript.tokens_of_finish scanned, View.tokens_of_finish kind.symm]
  | case2 source kind after scanned going hypothesis =>
    obtain ⟨found, last⟩ := Scanner.scan_shows shown
    rw [scanned] at found last
    dsimp only at found
    have first : Lexer.tokens view.ahead = _ := View.tokens_of_going (found ▸ going)
    rw [Transcript.tokens_of_scan scanned going, hypothesis last, Viewed.tokenText last, first,
      found]

end Fluent
