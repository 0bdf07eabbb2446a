/-
This file holds the evaluation that reads a whole program before its first call.
-/

import Fluent.Evaluation
import Fluent.Parser
import Fluent.Sink

namespace Fluent.TwoPhase

variable {World Obj τ : Type} [Sink τ]

/-- Reads definitions up to the end or the first error, and records each of them as it is read. -/
def read (parser : Parser) (session : Session World Obj) :
    List Definition × Option Error × Session World Obj :=
  match _read : parser.next with
  | (none, _) => ([], none, session)
  | (some (.error error), _) => ([], some error, session)
  | (some (.ok definition), after) =>
    match read after (session.record [.parsed definition]) with
    | (others, failure, session) => (definition :: others, failure, session)
termination_by parser.ahead.length
decreasing_by exact Parser.length_ahead_next_lt _read

/-- Reading gives the definitions that the parser yields, and records all of them in order. -/
theorem read_eq (parser : Parser) (session : Session World Obj) :
    read parser session =
      (parser.definitions.1, parser.definitions.2.1,
        session.record (parser.definitions.1.map .parsed)) := by
  fun_induction read parser session with
  | case1 parser session after ended =>
    rw [Parser.definitions]
    split <;> simp_all [Session.record]
  | case2 parser session error after failed =>
    rw [Parser.definitions]
    split <;> simp_all [Session.record]
  | case3 parser session definition after found others failure last left hypothesis =>
    rw [left] at hypothesis
    rw [Parser.definitions]
    split <;> simp_all [Session.record]

/-- Nothing is performed unless all is read, or written unless all definitions succeed. -/
def run (host : Host World Obj) (parser : Parser) (session : Session World Obj) (sink : τ) :
    Except Error Unit × Session World Obj × τ :=
  match read parser session with
  | (_, some error, session) => (.error error, session, sink)
  | (definitions, none, session) =>
    match Program.evaluate host ⟨definitions⟩ session with
    | (.error error, session) => (.error error, session, sink)
    | (.ok bytes, session) =>
      match Sink.write bytes sink with
      | (some fault, sink) => (.error (.transport fault), session, sink)
      | (none, sink) => (.ok (), session, sink)

end Fluent.TwoPhase
