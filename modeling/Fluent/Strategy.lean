/-
This file holds the choice between the two ways to evaluate a program.
-/

import Fluent.Streaming
import Fluent.TwoPhase

namespace Fluent

inductive Strategy where
  /-- The whole program is read first, and the answer is written at once. -/
  | twoPhase
  /-- Each call is performed and each definition written as soon as it is read. -/
  | streaming
  deriving DecidableEq, Repr

instance : Inhabited Strategy := ⟨.twoPhase⟩

/-- Evaluates what a parser has to read, and writes the answer to a sink. -/
def Strategy.run {World Obj τ : Type} [Sink τ] (strategy : Strategy) (host : Host World Obj)
    (parser : Parser) (session : Session World Obj) (sink : τ) :
    Except Error Unit × Session World Obj × τ :=
  match strategy with
  | .twoPhase => TwoPhase.run host parser session sink
  | .streaming => Streaming.run host parser session sink

end Fluent
