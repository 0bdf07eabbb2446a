/-
This file holds what a streaming evaluation does with an input that breaks off.
-/

import Fluent.Proofs.Host.Marshalling
import Fluent.Proofs.Parser.Interruption
import Fluent.Proofs.Parser.Targets
import Fluent.Proofs.Strategy.Calls
import Fluent.Proofs.Strategy.Trace

namespace Fluent

variable {World Obj : Type}

/-- An outline is evaluated as far as it was reached; the error of the input comes last. -/
theorem Outline.perform_eq_evaluateReached (host : Host World Obj) (outline : Outline)
    (session : Session World Obj) :
    let performed := outline.perform host session
    let reached := Definition.evaluateReached host outline.definitions
      outline.remainder.unfinished? session
    performed.session = reached.2 ∧
      performed.result =
        reached.1.bind fun _ => outline.remainder.error?.elim (.ok ()) .error := by
  have whole := Definition.evaluateAll_eq_perform host outline.definitions session
  simp only [Outline.perform, Definition.evaluateReached, whole]
  rcases Definition.perform host outline.definitions session with ⟨members, _ | failure, after⟩
  · dsimp only [Performance.result, Except.map]
    rcases outline.remainder with _ | ⟨target, error⟩ | ⟨target, receiver, calls, error⟩
    · exact ⟨rfl, rfl⟩
    · exact ⟨rfl, rfl⟩
    · dsimp only [Remainder.perform, Remainder.unfinished?, Definition.dispatch]
      rcases after.resolve target receiver with missing | focus
      · exact ⟨rfl, rfl⟩
      · dsimp only
        rcases focus.applyAll host target calls after with ⟨refusal | last, final⟩
        · exact ⟨rfl, rfl⟩
        · exact ⟨rfl, rfl⟩
  · exact ⟨rfl, rfl⟩

/-- The calls to objects that an input leads to. -/
def Outline.hostCalls (host : Host World Obj) (outline : Outline) (session : Session World Obj) :
    List (HostCall World Obj) :=
  (Definition.evaluateReached host.traced outline.definitions outline.remainder.unfinished?
    session.untraced).2.world.2

section

variable {τ : Type} [Sink τ] {contents : τ → List UInt8} {sink : τ}

/-- A streaming evaluation evaluates the definitions of its input as far as the input goes. -/
theorem Streaming.run_eq_evaluateReached (takes : Sink.TakesAll contents sink)
    (host : Host World Obj) (parser : Parser) (session : Session World Obj) :
    let ran := Streaming.run host parser session sink
    let reached := Definition.evaluateReached host parser.outline.definitions
      parser.outline.remainder.unfinished? (session.record [.streaming])
    ran.2.1 = reached.2 ∧
      ran.1 =
        reached.1.bind fun _ => parser.outline.remainder.error?.elim (.ok ()) .error := by
  have recorded := Streaming.run_recorded takes host parser session
  obtain ⟨sameSession, sameResult⟩ :=
    parser.outline.perform_eq_evaluateReached host (session.record [.streaming])
  exact ⟨recorded.session.trans sameSession, recorded.result.trans sameResult⟩

/-- A streaming evaluation makes the calls that its input leads to. -/
theorem Streaming.hostCalls_eq (takes : Sink.TakesAll contents sink) (host : Host World Obj)
    (parser : Parser) (session : Session World Obj) :
    Strategy.streaming.hostCalls host parser session sink =
      parser.outline.hostCalls host (session.record [.streaming]) := by
  obtain ⟨sameSession, -⟩ :=
    Streaming.run_eq_evaluateReached takes host.traced parser session.untraced
  rw [Strategy.hostCalls, Strategy.run, sameSession, Outline.hostCalls, Session.untraced,
    Session.untraced, Session.translate_record]

end

/-- Behind the definitions, only the calls of the broken one are asked for. -/
theorem Definition.evaluateReached_eq_append (host : Host World Obj)
    (definitions : List Definition) (unfinished : Option Definition)
    (session : Session.Traced World Obj) :
    ∃ made, (evaluateReached host.traced definitions unfinished session).2.world.2 =
        (evaluateAll host.traced definitions session).2.world.2 ++ made ∧
      made.map HostCall.call? <+:
        unfinished.elim [] fun definition => definition.calls.map some := by
  rw [evaluateReached]
  rcases evaluateAll host.traced definitions session with ⟨error | members, middle⟩
  · exact ⟨[], (List.append_nil _).symm, List.nil_prefix⟩
  · cases unfinished with
    | none => exact ⟨[], (List.append_nil _).symm, List.nil_prefix⟩
    | some definition =>
      obtain ⟨made, added, part, -⟩ := definition.dispatch_asked host middle
      refine ⟨made, ?_, part⟩
      rw [← added]
      dsimp only
      rcases definition.dispatch host.traced middle with ⟨error | focus, last⟩ <;> rfl

/-- On an input that does not parse, what its tokens reach is evaluated and performed. -/
theorem Streaming.run_of_broken {τ : Type} [Sink τ] {contents : τ → List UInt8} {sink : τ}
    (takes : Sink.TakesAll contents sink) (host : Host World Obj) (input : Input) {error : Error}
    (broken : input.parser.program.1 = .error error) (session : Session World Obj) :
    let ran := Strategy.streaming.run host input.parser session sink
    let made := Strategy.streaming.hostCalls host input.parser session sink
    let start := session.record [.streaming]
    (∃ definitions unfinished,
      Program.Reached (Lexer.tokens input.characters) definitions unfinished) ∧
    ∀ definitions unfinished,
      Program.Reached (Lexer.tokens input.characters) definitions unfinished →
        let reached := Definition.evaluateReached host definitions unfinished start
        input.parser.definitions.1 = definitions ∧
        made = (Definition.evaluateReached host.traced definitions unfinished
          start.untraced).2.world.2 ∧
        (∃ dispatched, made =
            (Definition.evaluateAll host.traced definitions start.untraced).2.world.2 ++
              dispatched ∧
          dispatched.map HostCall.call? <+:
            unfinished.elim [] fun definition => definition.calls.map some) ∧
        ran.2.1 = reached.2 ∧
        (∀ failure, reached.1 = .error failure → ran.1 = .error failure) ∧
        (reached.1 = .ok () → ran.1 = .error error) := by
  intro ran made start
  rw [← input.tokens_ahead]
  refine ⟨⟨_, _, input.parser.reached_outline⟩, fun definitions unfinished reaches => ?_⟩
  obtain ⟨rfl, rfl⟩ := Parser.outline_of_reached reaches
  have going : input.parser.done = false := by cases input <;> rfl
  obtain ⟨sameDefinitions, sameError⟩ := input.parser.definitions_eq_outline going
  have failed : input.parser.outline.remainder.error? = some error :=
    sameError.symm.trans ((input.parser.program_eq_error_iff error).1 broken)
  obtain ⟨sameSession, sameResult⟩ :=
    Streaming.run_eq_evaluateReached takes host input.parser session
  have sameCalls : made = _ :=
    Streaming.hostCalls_eq takes host input.parser session
  rw [failed] at sameResult
  refine ⟨sameDefinitions, sameCalls, ?_, sameSession, fun failure refused => ?_,
    fun succeeded => ?_⟩
  · rw [sameCalls]
    exact Definition.evaluateReached_eq_append host _ _ _
  · rw [refused] at sameResult
    exact sameResult
  · rw [succeeded] at sameResult
    exact sameResult

theorem Streaming.run_of_broken_in_arguments :
    let host := Host.nulls
    let session := Session.withReceiver "b" ()
    let input := Input.text "a := b.c(); d := b.e().f(1, g);"
    let error := Error.unexpected ⟨.argument, .identifier, "g", 28, 28⟩
    Sink.TakesAll Output.written Output.unlimited ∧
      input.parser.program.1 = .error error ∧
      (Strategy.streaming.run host input.parser session Output.unlimited).1 = .error error ∧
      (Strategy.streaming.hostCalls host input.parser session Output.unlimited).map
          HostCall.call? = [some ⟨"c", []⟩, none, some ⟨"e", []⟩] := by
  intro host session input error
  have broken : input.parser.program.1 = .error error :=
    (input.parser.program_eq_error_iff error).2 (by decide +kernel)
  have outline : input.parser.outline.definitions = [⟨"a", "b", [⟨"c", []⟩]⟩] ∧
      input.parser.outline.remainder.unfinished? = some ⟨"d", "b", [⟨"e", []⟩]⟩ := by
    decide +kernel
  have reached := input.parser.reached_outline
  rw [outline.1, outline.2, input.tokens_ahead] at reached
  obtain ⟨-, result⟩ :=
    Streaming.run_of_broken Output.takesAll_unlimited host input broken session
  obtain ⟨-, made, -, -, -, succeeds⟩ := result _ _ reached
  exact ⟨Output.takesAll_unlimited, broken, succeeds rfl, by rw [made]; rfl⟩

end Fluent
