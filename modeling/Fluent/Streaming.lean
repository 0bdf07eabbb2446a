/-
This file holds the evaluation that performs and writes as it reads.
-/

import Fluent.Answer
import Fluent.Parser
import Fluent.Session
import Fluent.Sink

namespace Fluent.Streaming

variable {World Obj : Type}

/-- Reads calls and performs them, up to the end of the chain or the first error. -/
def calls (host : Host World Obj) (target : String) (first : Bool) (focus : Focus Obj)
    (parser : Parser) (session : Session World Obj) :
    Except Error (Focus Obj) × Parser × Session World Obj :=
  match _read : parser.call first with
  | (.error error, parser) => (.error error, parser, session)
  | (.ok none, parser) => (.ok focus, parser, session)
  | (.ok (some call), parser) =>
    match focus.apply host target call session with
    | (.error error, session) => (.error error, parser, session)
    | (.ok focus, session) => calls host target false focus parser session
termination_by parser.ahead.length
decreasing_by exact Parser.length_ahead_call_lt _read

/-- The rest of a definition is read and performed, and what it ends on is marshalled. -/
def chain (host : Host World Obj) (target : String) (parser : Parser)
    (session : Session World Obj) :
    Except Error (List UInt8) × Parser × Session World Obj :=
  match parser.receiver with
  | (.error error, parser) => (.error error, parser, session)
  | (.ok receiver, parser) =>
    match session.resolve target receiver with
    | .error error => (.error error, parser, session)
    | .ok focus =>
      match calls host target true focus parser session with
      | (.error error, parser, session) => (.error error, parser, session)
      | (.ok focus, parser, session) =>
        match focus.marshal host target session with
        | (result, session) => (result, parser, session)

theorem length_ahead_calls_lt {host : Host World Obj} {target : String} {first : Bool}
    {focus result : Focus Obj} {parser after : Parser} {session last : Session World Obj}
    (read : calls host target first focus parser session = (.ok result, after, last)) :
    after.ahead.length < parser.ahead.length := by
  fun_induction calls host target first focus parser session with
  | case1 first focus parser session error rest failed => simp at read
  | case2 first focus parser session rest ended =>
    have smaller := Parser.length_ahead_call_lt ended
    simp_all
  | case3 first focus parser session rest call found error refused failed => simp at read
  | case4 first focus parser session rest call found next session' performed hypothesis =>
    have smaller := Parser.length_ahead_call_lt found
    have further := hypothesis read
    omega

theorem length_ahead_chain_lt {host : Host World Obj} {target : String}
    {parser after : Parser} {session last : Session World Obj} {bytes : List UInt8}
    (read : chain host target parser session = (.ok bytes, after, last)) :
    after.ahead.length < parser.ahead.length := by
  unfold chain at read
  split at read
  · simp at read
  next name afterReceiver received =>
    have first := Parser.length_ahead_receiver_lt received
    split at read
    · simp at read
    · split at read
      · simp at read
      next focus afterCalls session' streamed =>
        have second := length_ahead_calls_lt streamed
        split at read
        simp only [Prod.mk.injEq] at read
        obtain ⟨_, rfl, _⟩ := read
        omega

variable {τ : Type} [Sink τ]

/-- A definition that fails behind its `:=` leaves the text of its error in its place. -/
def bindings (host : Host World Obj) (first : Bool) (parser : Parser)
    (session : Session World Obj) (sink : τ) : Except Error Unit × Session World Obj × τ :=
  match _read : parser.target with
  | (.error error, _) => (.error error, session, sink)
  | (.ok none, _) => (.ok (), session, sink)
  | (.ok (some target), parser) =>
    match Sink.writeAll (Answer.opening first target) sink with
    | (some fault, sink) => (.error (.transport fault), session, sink)
    | (none, sink) =>
      match _chain : chain host target parser session with
      | (.error error, _, session) =>
        match Sink.write (Answer.failure error) sink with
        | (some fault, sink) => (.error (.transport fault), session, sink)
        | (none, sink) => (.error error, session, sink)
      | (.ok bytes, parser, session) =>
        match Sink.write bytes sink with
        | (some fault, sink) => (.error (.transport fault), session, sink)
        | (none, sink) => bindings host false parser session sink
termination_by parser.ahead.length
decreasing_by
  have named := Parser.length_ahead_target_lt _read
  have chained := length_ahead_chain_lt _chain
  omega

/-- Once the opening brace is written the closing one is too, whatever happens between. -/
def run (host : Host World Obj) (parser : Parser) (session : Session World Obj) (sink : τ) :
    Except Error Unit × Session World Obj × τ :=
  let session := session.record [.streaming]
  match Sink.write Answer.openBrace sink with
  | (some fault, sink) => (.error (.transport fault), session, sink)
  | (none, sink) =>
    match bindings host true parser session sink with
    | (outcome, session, sink) =>
      match Sink.write Answer.closeBrace sink with
      | (some fault, sink) => (.error (.transport fault), session, sink)
      | (none, sink) => (outcome, session, sink)

end Fluent.Streaming
