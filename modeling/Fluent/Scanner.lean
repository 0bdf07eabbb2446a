/-
This file holds the scanner: tokens one at a time from a source.
-/

import Fluent.Error
import Fluent.Lexer
import Fluent.Source.Memory

namespace Fluent.Scanner

open CharSource

variable {σ : Type} [CharSource σ]

/-- Reads the next token, blanks included. Its text and place stay with the source. -/
def token (source : σ) : Kind × σ :=
  match read (startToken source) with
  | (none, after) => (.finish, after)
  | (some character, after) =>
    match Lexer.first character with
    | .opens state =>
      match Lexer.run state after with
      | (kind, after) => (Lexer.classify kind (tokenText after), after)
    | .alone kind => (kind, after)

/-- Blanks form one token, so a proper token or the end follows ignored ones. -/
def scan (ignoreBlanks : Bool) (source : σ) : Kind × σ :=
  match token source with
  | (.blank, after) => if ignoreBlanks then token after else (.blank, after)
  | (kind, after) => (kind, after)

/-- Every token takes something from the source, and only the end takes nothing. -/
theorem remaining_token (source : σ) :
    remaining (token source).2 ≤ remaining source ∧
      ((token source).1 ≠ .finish → remaining (token source).2 < remaining source) := by
  have started := remaining_startToken_le source
  unfold token
  split
  next after found =>
    have afterRead := remaining_read_le (startToken source)
    rw [found] at afterRead
    exact ⟨Nat.le_trans afterRead started, fun proper => absurd rfl proper⟩
  next character after found =>
    have afterRead := remaining_read_lt (startToken source) (by simp [found])
    rw [found] at afterRead
    split
    next state _ =>
      have afterRun := Lexer.remaining_run_le state after
      dsimp only at *
      omega
    next kind _ =>
      dsimp only at *
      omega

theorem remaining_scan (ignoreBlanks : Bool) (source : σ) :
    remaining (scan ignoreBlanks source).2 ≤ remaining source ∧
      ((scan ignoreBlanks source).1 ≠ .finish →
        remaining (scan ignoreBlanks source).2 < remaining source) := by
  have one := remaining_token source
  have two := remaining_token (token source).2
  unfold scan
  grind

/-- The error for the token in the source, taken as illegal. -/
def illegal (source : σ) : IllegalToken :=
  ⟨tokenText source, byteOffset source, charOffset source⟩

/-- A fault that cut the input short has precedence over the text that it cut. -/
def lexicalError (source : σ) : Error × σ :=
  match takeFault source with
  | (some fault, after) => (.transport fault, after)
  | (none, after) => (.lexical (illegal after), after)

/-- The next token or error; `none` at the end. A fault at the end of the input is an item. -/
def next (source : σ) : Option (Except Error Token) × σ :=
  match scan true source with
  | (.finish, after) =>
    match takeFault after with
    | (some fault, after) => (some (.error (.transport fault)), after)
    | (none, after) => (none, after)
  | (.illegal, after) =>
    match lexicalError after with
    | (error, after) => (some (.error error), after)
  | (kind, after) => (some (.ok ⟨kind, tokenText after⟩), after)

theorem remaining_lexicalError_le (source : σ) :
    remaining (lexicalError source).2 ≤ remaining source := by
  have taken := remaining_takeFault_le source
  unfold lexicalError
  grind

theorem remaining_next_lt {source after : σ} {item : Except Error Token}
    (found : next source = (some item, after)) : remaining after < remaining source := by
  have scanned := remaining_scan true source
  unfold next at found
  split at found
  next rest finished =>
    have taken := remaining_takeFault_lt rest
    grind
  next rest refused =>
    have reported := remaining_lexicalError_le rest
    grind
  next kind rest _ _ accepted =>
    grind

/-- Everything that `next` yields until the end. -/
def tokens (source : σ) : List (Except Error Token) × σ :=
  match _found : next source with
  | (none, after) => ([], after)
  | (some item, after) =>
    match tokens after with
    | (items, last) => (item :: items, last)
termination_by remaining source
decreasing_by exact remaining_next_lt _found

/-- The tokens of a list of items, or the first error among them. -/
def collect : List (Except Error Token) → Except Error (List Token)
  | [] => .ok []
  | .error error :: _ => .error error
  | .ok token :: items => (collect items).map (token :: ·)

/-- The tokens of a text without its blanks, or the first error. -/
def tokenize (text : String) : Except Error (List Token) :=
  collect (tokens (TextSource.ofString text)).1

end Fluent.Scanner
