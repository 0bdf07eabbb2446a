/-
This file proves that the two strategies agree.
-/

import Fluent.Proofs.Host.Marshalling
import Fluent.Proofs.Strategy.Trace

namespace Fluent

variable {World Obj : Type}

section

variable {τ : Type} [Sink τ] {contents : τ → List UInt8} {sink : τ}

/-- Of an input that is no program, a two-phase evaluation reports the error. -/
theorem TwoPhase.run_of_unparsed (host : Host World Obj) {parser : Parser} {error : Error}
    (unparsed : parser.program.1 = .error error) (session : Session World Obj) (sink : τ) :
    TwoPhase.run host parser session sink =
      (.error error, session.record (parser.definitions.1.map .parsed), sink) := by
  have failed := (parser.program_eq_error_iff error).1 unparsed
  rw [TwoPhase.run, TwoPhase.read_eq]
  rcases read : parser.definitions with ⟨definitions, failure, last⟩
  rw [read] at failed
  obtain rfl : failure = some error := failed
  rfl

/-- A program is evaluated as a whole before the sink is written to. -/
theorem TwoPhase.run_of_parsed (takes : Sink.TakesAll contents sink) (host : Host World Obj)
    {parser : Parser} {program : Program} (parsed : parser.program.1 = .ok program)
    (session : Session World Obj) :
    let start := (session.record (program.definitions.map .parsed)).record
      [.evaluating program.definitions.length]
    TwoPhase.run host parser session sink =
      match Definition.evaluateAll host program.definitions start with
      | (.ok members, last) => (.ok (), last, (Sink.write (Answer.encode members) sink).2)
      | (.error error, last) => (.error error, last, sink) := by
  obtain ⟨sameDefinitions, finished⟩ := (parser.program_eq_ok_iff program).1 parsed
  intro start
  rw [TwoPhase.run, TwoPhase.read_eq]
  rcases read : parser.definitions with ⟨definitions, failure, rest⟩
  rw [read] at sameDefinitions finished
  obtain rfl : definitions = program.definitions := sameDefinitions
  obtain rfl : failure = none := finished
  dsimp only [Program.evaluate]
  rcases Definition.evaluateAll host program.definitions start with ⟨error | members, last⟩
  · rfl
  · dsimp only
    rw [takes.write_eq]

/-- A two-phase evaluation writes all members of the outline or nothing. -/
theorem TwoPhase.run_recorded (takes : Sink.TakesAll contents sink) (host : Host World Obj)
    (parser : Parser) (going : parser.done = false) (session : Session World Obj) :
    let definitions := parser.outline.definitions
    let parsed := session.record (definitions.map .parsed)
    let ran := TwoPhase.run host parser session sink
    match parser.outline.remainder.error? with
    | some error => ran = (.error error, parsed, sink)
    | none =>
      let performed :=
        Definition.perform host definitions (parsed.record [.evaluating definitions.length])
      performed.Recorded contents sink
        (if performed.failure.isSome then [] else Answer.encode performed.members) ran := by
  obtain ⟨sameDefinitions, sameError⟩ := parser.definitions_eq_outline going
  rw [← sameDefinitions, ← sameError]
  cases ending : parser.definitions.2.1 with
  | some error =>
    exact TwoPhase.run_of_unparsed host ((parser.program_eq_error_iff error).2 ending) session sink
  | none =>
    have parsed : parser.program.1 = .ok ⟨parser.definitions.1⟩ :=
      (parser.program_eq_ok_iff _).2 ⟨rfl, ending⟩
    dsimp only
    rw [TwoPhase.run_of_parsed takes host parsed, Definition.evaluateAll_eq_perform]
    generalize Definition.perform host parser.definitions.1
      ((session.record (parser.definitions.1.map .parsed)).record
        [.evaluating parser.definitions.1.length]) = performed
    obtain ⟨members, _ | failure, final⟩ := performed
    · obtain ⟨-, added, after⟩ := takes.write (Answer.encode members)
      exact ⟨rfl, rfl, added, after⟩
    · exact ⟨rfl, rfl, (List.append_nil _).symm, takes⟩

end

/-- Definitions do not depend on what has been logged before. -/
theorem Definition.perform_of_same_state (host : Host World Obj) (definitions : List Definition)
    (first second : Session World Obj) (sameSymbols : first.symbols = second.symbols)
    (sameWorld : first.world = second.world) :
    let one := Definition.perform host definitions first
    let other := Definition.perform host definitions second
    one.members = other.members ∧ one.failure = other.failure ∧
      one.session.symbols = other.session.symbols ∧ one.session.world = other.session.world := by
  have split (session : Session World Obj) :
      session =
        Session.translate id session.log ⟨session.symbols, session.world, []⟩ := by
    simp [Session.translate]
  rw [split first, split second, Definition.perform_translate host.shows_self,
    Definition.perform_translate host.shows_self, sameSymbols, sameWorld]
  simp [Performance.translate]

section

variable {τ : Type} [Sink τ] {contents : τ → List UInt8} {sink : τ}

/-- On an input that parses, the strategies come to the same result and leave the same state. -/
theorem Strategy.runs_agree_of_parsed (takes : Sink.TakesAll contents sink)
    (host : Host World Obj) (parser : Parser) (going : parser.done = false)
    (parsed : parser.outline.remainder.error? = none) (session : Session World Obj) :
    let whole := Strategy.twoPhase.run host parser session sink
    let streamed := Strategy.streaming.run host parser session sink
    whole.1 = streamed.1 ∧ whole.2.1.symbols = streamed.2.1.symbols ∧
      whole.2.1.world = streamed.2.1.world ∧
      (whole.1 = .ok () → contents whole.2.2 = contents streamed.2.2) := by
  have same := Definition.perform_of_same_state host parser.outline.definitions
    ((session.record (parser.outline.definitions.map .parsed)).record
      [.evaluating parser.outline.definitions.length])
    (session.record [.streaming]) rfl rfl
  have whole := TwoPhase.run_recorded takes host parser going session
  have streamed := Streaming.run_recorded takes host parser session
  rw [Outline.perform_of_finished host parser.outline parsed] at streamed
  simp only [parsed] at whole
  obtain ⟨sameMembers, sameFailure, sameSymbols, sameWorld⟩ := same
  have sameResult : (TwoPhase.run host parser session sink).1 =
      (Streaming.run host parser session sink).1 := by
    rw [whole.result, streamed.result, Performance.result, Performance.result, sameFailure]
  refine ⟨sameResult, ?_, ?_, fun succeeded => ?_⟩
  · simp only [Strategy.run]
    rw [whole.session, streamed.session, sameSymbols]
  · simp only [Strategy.run]
    rw [whole.session, streamed.session, sameWorld]
  · have finished : (Definition.perform host parser.outline.definitions
        (session.record [.streaming])).failure = none := by
      rw [← Performance.result_eq_ok_iff, ← streamed.result]
      exact sameResult ▸ succeeded
    simp only [Strategy.run]
    rw [whole.output, streamed.output, sameFailure, sameMembers]
    simp [Performance.remains, finished]

/-- An input that breaks off fails under either strategy. -/
theorem Strategy.run_ne_ok_of_broken (takes : Sink.TakesAll contents sink) (strategy : Strategy)
    (host : Host World Obj) (parser : Parser) (going : parser.done = false) {error : Error}
    (broken : parser.outline.remainder.error? = some error) (session : Session World Obj) :
    (strategy.run host parser session sink).1 ≠ .ok () := by
  cases strategy with
  | twoPhase =>
    have whole := TwoPhase.run_recorded takes host parser going session
    simp only [broken] at whole
    simp [Strategy.run, whole]
  | streaming =>
    have failed := parser.outline.failure_ne_none host broken (session.record [.streaming])
    obtain ⟨failure, failed⟩ := Option.ne_none_iff_exists'.1 failed
    have streamed := (Streaming.run_recorded takes host parser session).result
    simp [Strategy.run, streamed, Performance.result, failed]

/-- The strategies succeed alike, and do the same to objects where the input parses. -/
theorem Strategy.twoPhase_agrees_streaming {σ : Type} [CharSource σ]
    (takes : Sink.TakesAll contents sink) (host : Host World Obj) (source : σ)
    (session : Session World Obj) :
    let parser := Parser.ofSource source
    let whole := Strategy.twoPhase.run host parser session sink
    let streamed := Strategy.streaming.run host parser session sink
    (whole.1 = .ok () ↔ streamed.1 = .ok ()) ∧
      (whole.1 = .ok () → contents whole.2.2 = contents streamed.2.2) ∧
      ∀ program, parser.program.1 = .ok program →
        Strategy.twoPhase.hostCalls host parser session sink =
            Strategy.streaming.hostCalls host parser session sink ∧
          whole.2.1.symbols = streamed.2.1.symbols ∧
          whole.2.1.world = streamed.2.1.world ∧ whole.1 = streamed.1 := by
  intro parser whole streamed
  have going : parser.done = false := rfl
  cases ending : parser.outline.remainder.error? with
  | none =>
    obtain ⟨sameResult, sameSymbols, sameWorld, sameOutput⟩ :=
      Strategy.runs_agree_of_parsed takes host parser going ending session
    have sameCalls :=
      (Strategy.runs_agree_of_parsed takes host.traced parser going ending session.untraced).2.2.1
    exact ⟨by rw [sameResult], sameOutput, fun program parsed =>
      ⟨congrArg Prod.snd sameCalls, sameSymbols, sameWorld, sameResult⟩⟩
  | some error =>
    have wholeFails :=
      Strategy.twoPhase.run_ne_ok_of_broken takes host parser going ending session
    have streamedFails :=
      Strategy.streaming.run_ne_ok_of_broken takes host parser going ending session
    refine ⟨iff_of_false wholeFails streamedFails, fun succeeded => absurd succeeded wholeFails,
      fun program parsed => ?_⟩
    have finished := ((parser.program_eq_ok_iff program).1 parsed).2
    rw [(parser.definitions_eq_outline going).2, ending] at finished
    cases finished

end

theorem Strategy.twoPhase_agrees_streaming_chained :
    let host := Host.nulls
    let session := Session.withReceiver "b" ()
    let parser := Parser.ofSource (TextSource.ofString "a := b.c();")
    let program : Program := ⟨[⟨"a", "b", [⟨"c", []⟩]⟩]⟩
    Sink.TakesAll Output.written Output.unlimited ∧
      parser.program.1 = .ok program ∧
      Strategy.twoPhase.hostCalls host parser session Output.unlimited =
        Strategy.streaming.hostCalls host parser session Output.unlimited := by
  intro host session parser program
  have parsed : parser.program.1 = .ok program :=
    (parser.program_eq_ok_iff program).2 (by decide +kernel)
  obtain ⟨-, -, agree⟩ := Strategy.twoPhase_agrees_streaming Output.takesAll_unlimited host
    (TextSource.ofString "a := b.c();") session
  exact ⟨Output.takesAll_unlimited, parsed, (agree program parsed).1⟩

end Fluent
