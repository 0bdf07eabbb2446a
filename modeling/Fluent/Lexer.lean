/-
This file holds the automaton that recognises one token, and its run over a source.
-/

import Fluent.Source
import Fluent.Text.Blank
import Fluent.Token

namespace Fluent.Lexer

/-- A number is `-?digits`, then `.digits?`, then `e` with an optional sign and digits. -/
inductive Numeral where
  | sign
  | whole
  | fraction
  | exponent
  | exponentSign
  | exponentDigits
  deriving DecidableEq, Repr

/-- Where a quoted text stands between its quotes. -/
inductive Quoted where
  | body
  | escape
  /-- After the `u` of an escape and this many of its four digits. -/
  | unicode (seen : Nat)
  deriving DecidableEq, Repr

inductive State where
  | blanks
  | word
  | number (part : Numeral)
  | quoted (part : Quoted)
  /-- Inside a blob, with this many inner braces open. -/
  | blob (depth : Nat)
  | blobQuoted (depth : Nat) (part : Quoted)
  | colon
  deriving DecidableEq, Repr

/-- What a character does to a token. -/
inductive Move where
  | advance (state : State)
  /-- The character is the last of the token. -/
  | close (kind : Kind)
  /-- The token has ended before the character, which goes back. -/
  | stop (kind : Kind)
  deriving DecidableEq, Repr

/-- What the first character of a token does: it opens a longer token or is one by itself. -/
inductive Opening where
  | opens (state : State)
  | alone (kind : Kind)
  deriving DecidableEq, Repr

/-- What a character does to a quoted text. -/
inductive QuotedMove where
  | inside (part : Quoted)
  | closed
  | broken
  deriving DecidableEq, Repr

def isWordStart (character : Char) : Bool :=
  character.isAlpha || character = '_'

def isWordPart (character : Char) : Bool :=
  character.isAlphanum || character = '_'

def isExponentMark (character : Char) : Bool :=
  character = 'e' || character = 'E'

def isHexDigit (character : Char) : Bool :=
  character.isDigit || ('a' ≤ character && character ≤ 'f')
    || ('A' ≤ character && character ≤ 'F')

/-- The characters that stand for themselves or for a control character after a backslash. -/
def isSimpleEscape (character : Char) : Bool :=
  character ∈ ['b', 'f', 'n', 'r', 't', '\\', '/', '"']

def Numeral.step : Numeral → Char → Move
  | .sign, character =>
    if character.isDigit then .advance (.number .whole) else .close .illegal
  | .whole, character =>
    if character.isDigit then .advance (.number .whole)
    else if character = '.' then .advance (.number .fraction)
    else if isExponentMark character then .advance (.number .exponent)
    else .stop .integer
  | .fraction, character =>
    if character.isDigit then .advance (.number .fraction)
    else if isExponentMark character then .advance (.number .exponent)
    else .stop .float
  | .exponent, character =>
    if character.isDigit then .advance (.number .exponentDigits)
    else if character = '-' || character = '+' then .advance (.number .exponentSign)
    else .close .illegal
  | .exponentSign, character =>
    if character.isDigit then .advance (.number .exponentDigits) else .close .illegal
  | .exponentDigits, character =>
    if character.isDigit then .advance (.number .exponentDigits) else .stop .float

def Numeral.atEnd : Numeral → Kind
  | .whole => .integer
  | .fraction | .exponentDigits => .float
  | .sign | .exponent | .exponentSign => .illegal

def Quoted.step : Quoted → Char → QuotedMove
  | .body, character =>
    if character = '"' then .closed
    else if character = '\\' then .inside .escape
    else if character.toNat < 0x20 then .broken
    else .inside .body
  | .escape, character =>
    if isSimpleEscape character then .inside .body
    else if character = 'u' then .inside (.unicode 0)
    else .broken
  | .unicode seen, character =>
    if !isHexDigit character then .broken
    else if seen = 3 then .inside .body
    else .inside (.unicode (seen + 1))

/-- What a token's first character does. -/
def first (character : Char) : Opening :=
  if isBlank character then .opens .blanks
  else if isWordStart character then .opens .word
  else if character.isDigit then .opens (.number .whole)
  else match character with
    | '-' => .opens (.number .sign)
    | '"' => .opens (.quoted .body)
    | '\x7b' => .opens (.blob 0)
    | ':' => .opens .colon
    | '.' => .alone .dot
    | ',' => .alone .comma
    | ';' => .alone .semicolon
    | '(' => .alone .openParen
    | ')' => .alone .closeParen
    | _ => .alone .illegal

/-- The move for a further character. -/
def step : State → Char → Move
  | .blanks, character => if isBlank character then .advance .blanks else .stop .blank
  | .word, character => if isWordPart character then .advance .word else .stop .identifier
  | .number part, character => part.step character
  | .quoted part, character =>
    match part.step character with
    | .inside next => .advance (.quoted next)
    | .closed => .close .text
    | .broken => .close .illegal
  | .blob depth, character =>
    match character, depth with
    | '"', depth => .advance (.blobQuoted depth .body)
    | '\x7b', depth => .advance (.blob (depth + 1))
    | '\x7d', 0 => .close .blob
    | '\x7d', depth + 1 => .advance (.blob depth)
    | _, depth => .advance (.blob depth)
  | .blobQuoted depth part, character =>
    match part.step character with
    | .inside next => .advance (.blobQuoted depth next)
    | .closed => .advance (.blob depth)
    | .broken => .close .illegal
  | .colon, character => if character = '=' then .close .define else .close .illegal

/-- The kind of a token that the end of the input cuts off. -/
def State.atEnd : State → Kind
  | .blanks => .blank
  | .word => .identifier
  | .number part => part.atEnd
  | .quoted _ | .blob _ | .blobQuoted _ _ | .colon => .illegal

/-- The words that are no identifiers. -/
def classify (kind : Kind) (literal : String) : Kind :=
  if kind = .identifier then
    if literal = "true" then .trueWord
    else if literal = "false" then .falseWord
    else if literal = "null" then .nullWord
    else .identifier
  else kind

theorem classify_ne_finish {kind : Kind} (literal : String) (known : kind ≠ .finish) :
    classify kind literal ≠ .finish := by
  unfold classify
  grind

variable {σ : Type} [CharSource σ]

open CharSource

/-- Reads on from a state until the token ends. -/
def run (state : State) (source : σ) : Kind × σ :=
  match _found : read source with
  | (none, after) => (state.atEnd, after)
  | (some character, after) =>
    match step state character with
    | .advance next => run next after
    | .close kind => (kind, after)
    | .stop kind => (kind, unread after)
termination_by remaining source
decreasing_by
  have smaller := remaining_read_lt source (by simp [_found])
  simpa [_found] using smaller

theorem remaining_run_le (state : State) (source : σ) :
    remaining (run state source).2 ≤ remaining source := by
  fun_induction run state source with
  | case1 state source after found =>
    have := remaining_read_le source
    simpa [found] using this
  | case2 state source character after found next moved hypothesis =>
    have := remaining_read_le source
    simp only [found] at this
    omega
  | case3 state source character after found kind moved =>
    have := remaining_read_le source
    simpa [found] using this
  | case4 state source character after found kind moved =>
    have := remaining_unread_le source (by simp [found])
    simpa [found] using this

end Fluent.Lexer
