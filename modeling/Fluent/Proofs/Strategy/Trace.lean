/-
This file holds the calls that a run makes to objects.
-/

import Fluent.Proofs.Strategy.Streaming

namespace Fluent

variable {World Outer Obj τ : Type} [Sink τ]

section

variable {view : World → Outer} {inner : Host World Obj} {outer : Host Outer Obj}

theorem Streaming.calls_translate (shows : Host.Shows view inner outer) (earlier : List Record)
    (target : String) (first : Bool) (focus : Focus Obj) (parser : Parser)
    (session : Session World Obj) :
    Streaming.calls outer target first focus parser (session.translate view earlier) =
      Prod.map id (Prod.map id (Session.translate view earlier))
        (Streaming.calls inner target first focus parser session) := by
  fun_induction Streaming.calls inner target first focus parser session with
  | case1 first focus parser session error rest failed =>
    rw [Streaming.calls]
    split <;> simp_all
  | case2 first focus parser session rest ended =>
    rw [Streaming.calls]
    split <;> simp_all
  | case3 first focus parser session rest call found error refused failed =>
    rw [Streaming.calls]
    split <;> simp_all [Focus.apply_translate shows]
  | case4 first focus parser session rest call found next last performed hypothesis =>
    rw [Streaming.calls]
    split <;> simp_all [Focus.apply_translate shows]

theorem Streaming.chain_translate (shows : Host.Shows view inner outer) (earlier : List Record)
    (target : String) (parser : Parser) (session : Session World Obj) :
    Streaming.chain outer target parser (session.translate view earlier) =
      Prod.map id (Prod.map id (Session.translate view earlier))
        (Streaming.chain inner target parser session) := by
  simp only [Streaming.chain, Session.resolve_translate]
  rcases parser.receiver with ⟨error | receiver, received⟩
  · rfl
  · dsimp only
    cases session.resolve target receiver with
    | error missing => rfl
    | ok focus =>
      simp only [Streaming.calls_translate shows]
      rcases Streaming.calls inner target true focus received session with
        ⟨error | final, after, last⟩
      · rfl
      · simp [Focus.marshal_translate shows]

theorem Streaming.bindings_translate (shows : Host.Shows view inner outer)
    (earlier : List Record) (first : Bool) (parser : Parser) (session : Session World Obj)
    (sink : τ) :
    Streaming.bindings outer first parser (session.translate view earlier) sink =
      Prod.map id (Prod.map (Session.translate view earlier) id)
        (Streaming.bindings inner first parser session sink) := by
  fun_induction Streaming.bindings inner first parser session sink with
  | case1 first parser session sink error rest named =>
    rw [Streaming.bindings_eq, named]
    rfl
  | case2 first parser session sink rest named =>
    rw [Streaming.bindings_eq, named]
    rfl
  | case3 first parser session sink target rest named fault full refused =>
    rw [Streaming.bindings_eq, named]
    simp [refused]
  | case4 first parser session sink target rest named opened keyed error after last chained fault
      full refused =>
    rw [Streaming.bindings_eq, named]
    simp [keyed, Streaming.chain_translate shows, chained, refused]
  | case5 first parser session sink target rest named opened keyed error after last chained closed
      written =>
    rw [Streaming.bindings_eq, named]
    simp [keyed, Streaming.chain_translate shows, chained, written]
  | case6 first parser session sink target rest named opened keyed bytes after last chained fault
      full refused =>
    rw [Streaming.bindings_eq, named]
    simp [keyed, Streaming.chain_translate shows, chained, refused]
  | case7 first parser session sink target rest named opened keyed bytes after last chained closed
      written hypothesis =>
    rw [Streaming.bindings_eq, named]
    simp [keyed, Streaming.chain_translate shows, chained, written, hypothesis]

theorem Streaming.run_translate (shows : Host.Shows view inner outer) (earlier : List Record)
    (parser : Parser) (session : Session World Obj) (sink : τ) :
    Streaming.run outer parser (session.translate view earlier) sink =
      Prod.map id (Prod.map (Session.translate view earlier) id)
        (Streaming.run inner parser session sink) := by
  simp only [Streaming.run, ← Session.translate_record]
  rcases Sink.write Answer.openBrace sink with ⟨_ | fault, opened⟩
  · simp only [Streaming.bindings_translate shows]
    rcases Streaming.bindings inner true parser (session.record [.streaming]) opened with
      ⟨outcome, last, closing⟩
    dsimp only [Prod.map, id]
    rcases Sink.write Answer.closeBrace closing with ⟨_ | fault, closed⟩ <;> rfl
  · rfl

theorem TwoPhase.run_translate (shows : Host.Shows view inner outer) (earlier : List Record)
    (parser : Parser) (session : Session World Obj) (sink : τ) :
    TwoPhase.run outer parser (session.translate view earlier) sink =
      Prod.map id (Prod.map (Session.translate view earlier) id)
        (TwoPhase.run inner parser session sink) := by
  simp only [TwoPhase.run, TwoPhase.read_eq, ← Session.translate_record]
  rcases parser.definitions with ⟨definitions, _ | error, last⟩
  · simp only [Program.evaluate, ← Session.translate_record, Definition.evaluateAll_eq_perform,
      Definition.perform_translate shows]
    rcases Definition.perform inner definitions ((session.record (definitions.map .parsed)).record
      [.evaluating definitions.length]) with ⟨members, _ | failure, final⟩
    · dsimp only [Performance.translate, Performance.result, Except.map]
      rcases Sink.write (Answer.encode members) sink with ⟨_ | fault, written⟩ <;> rfl
    · rfl
  · rfl

/-- Hosts that answer alike lead to the same run. -/
theorem Strategy.run_translate (shows : Host.Shows view inner outer) (earlier : List Record)
    (strategy : Strategy) (parser : Parser) (session : Session World Obj) (sink : τ) :
    strategy.run outer parser (session.translate view earlier) sink =
      Prod.map id (Prod.map (Session.translate view earlier) id)
        (strategy.run inner parser session sink) := by
  cases strategy with
  | twoPhase => exact TwoPhase.run_translate shows earlier parser session sink
  | streaming => exact Streaming.run_translate shows earlier parser session sink

end

/-- The session in which the host's record is still empty. -/
def Session.untraced (session : Session World Obj) :
    Session (World × List (HostCall World Obj)) Obj :=
  session.translate (·, []) []

/-- The calls that a run makes to objects, in order. -/
def Strategy.hostCalls (strategy : Strategy) (host : Host World Obj) (parser : Parser)
    (session : Session World Obj) (sink : τ) : List (HostCall World Obj) :=
  (strategy.run host.traced parser session.untraced sink).2.1.world.2

/-- The run that records its calls is the run itself. -/
theorem Strategy.run_traced (strategy : Strategy) (host : Host World Obj) (parser : Parser)
    (session : Session World Obj) (sink : τ) :
    Prod.map id (Prod.map (Session.translate Prod.fst []) id)
        (strategy.run host.traced parser session.untraced sink) =
      strategy.run host parser session sink := by
  rw [← Strategy.run_translate host.shows_traced]
  rfl

/-- What a run leaves in its sink, and its result, do not depend on the record of its calls. -/
theorem Strategy.run_eq_traced (strategy : Strategy) (host : Host World Obj) (parser : Parser)
    (session : Session World Obj) (sink : τ) :
    let traced := strategy.run host.traced parser session.untraced sink
    strategy.run host parser session sink =
      (traced.1, traced.2.1.translate Prod.fst [], traced.2.2) :=
  (strategy.run_traced host parser session sink).symm

/-- A run is read off its record: where the record ends there are the calls that are made. -/
theorem Strategy.run_of_traced (strategy : Strategy) {host : Host World Obj} {parser : Parser}
    {session : Session World Obj} {sink final : τ} {result : Except Error Unit}
    {last : Session (World × List (HostCall World Obj)) Obj}
    (traced : strategy.run host.traced parser session.untraced sink = (result, last, final)) :
    strategy.run host parser session sink = (result, last.translate Prod.fst [], final) ∧
      strategy.hostCalls host parser session sink = last.world.2 := by
  constructor
  · rw [strategy.run_eq_traced, traced]
  · rw [Strategy.hostCalls, traced]

end Fluent
