/-
This file holds a source's tokens with their places, as a parser needs them.
-/

import Fluent.Scanner

namespace Fluent

/-- A token that is no blank, with its place in the text. -/
structure Lexeme where
  kind : Kind
  literal : String
  byteOffset : Nat
  charOffset : Nat
  /-- Whether a fault ended the input while the token was read. -/
  cut : Bool
  deriving DecidableEq, Repr

/-- A source says its tokens, where it ends, and which fault cut it short, if any. -/
structure Transcript where
  lexemes : List Lexeme
  byteLength : Nat
  charLength : Nat
  fault : Option Fault
  deriving DecidableEq, Repr

open CharSource

def Transcript.ofSource {σ : Type} [CharSource σ] (source : σ) : Transcript :=
  match _scanned : Scanner.scan true source with
  | (kind, after) =>
    if _ended : kind = .finish then
      ⟨[], byteOffset after, charOffset after, (takeFault after).1⟩
    else
      let lexeme : Lexeme :=
        ⟨kind, tokenText after, byteOffset after, charOffset after, (takeFault after).1.isSome⟩
      let later := ofSource after
      { later with lexemes := lexeme :: later.lexemes }
termination_by remaining source
decreasing_by
  have smaller := (Scanner.remaining_scan true source).2
  rw [_scanned] at smaller
  exact smaller _ended

end Fluent
