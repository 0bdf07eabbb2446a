/-
This file proves that a two-phase evaluation is all or nothing.
-/

import Fluent.Proofs.Parser.Targets
import Fluent.Proofs.Strategy.Agreement
import Fluent.Proofs.Strategy.Evaluated

namespace Fluent

variable {World Obj : Type}

section

variable {τ : Type} [Sink τ] {contents : τ → List UInt8} {sink : τ}

/-- A two-phase evaluation writes all that its definitions come to, or no byte. -/
theorem Strategy.twoPhase_all_or_nothing (takes : Sink.TakesAll contents sink)
    (host : Host World Obj) (input : Input) (session : Session World Obj) :
    let ran := Strategy.twoPhase.run host input.parser session sink
    let made := Strategy.twoPhase.hostCalls host input.parser session sink
    (∀ error, input.parser.program.1 = .error error →
      ran.1 = .error error ∧ ran.2.2 = sink ∧ made = [] ∧
        ran.2.1.symbols = session.symbols ∧ ran.2.1.world = session.world) ∧
    ∀ program, input.parser.program.1 = .ok program → ∃ result,
      Definition.EvaluatedAll session.symbols.names program.definitions made result ∧
        match result with
        | .ok members =>
          ran.1 = .ok () ∧
            contents ran.2.2 = contents sink ++ (Utf8.encode ['\x7b'] ++
              (Utf8.encode [',', '\n']).intercalate (members.map fun member =>
                Utf8.encode ('"' :: member.1.toList ++ ['"', ':']) ++ member.2) ++
              Utf8.encode ['\x7d'])
        | .error error => ran.1 = .error error ∧ ran.2.2 = sink := by
  constructor
  · intro error unparsed
    obtain ⟨same, silent⟩ := Strategy.twoPhase.run_of_traced
      (TwoPhase.run_of_unparsed host.traced unparsed session.untraced sink)
    rw [same, silent]
    exact ⟨rfl, rfl, rfl, rfl, rfl⟩
  · intro program parsed
    have traced := TwoPhase.run_of_parsed takes host.traced parsed session.untraced
    obtain ⟨made, adds, evaluated⟩ := Definition.evaluateAll_evaluated host program.definitions
      ((session.untraced.record (program.definitions.map .parsed)).record
        [.evaluating program.definitions.length])
    dsimp only at traced
    generalize Definition.evaluateAll host.traced program.definitions _ = performed
      at traced adds evaluated
    obtain ⟨error | members, last⟩ := performed
    · obtain ⟨same, recorded⟩ := Strategy.twoPhase.run_of_traced traced
      have only : last.world.2 = made := adds.calls
      rw [same, recorded, only]
      exact ⟨.error error, evaluated, rfl, rfl⟩
    · obtain ⟨same, recorded⟩ := Strategy.twoPhase.run_of_traced traced
      have only : last.world.2 = made := adds.calls
      rw [same, recorded, only]
      exact ⟨.ok members, evaluated, rfl, (takes.write (Answer.encode members)).2.1⟩

end

theorem Strategy.twoPhase_all_or_nothing_second_fails :
    let host := Host.nullsRefusing "e" (.refusal "no") []
    let session := Session.withReceiver "b" ()
    let input := Input.text "a := b.c(); d := b.e().f(); g := b.h();"
    let program : Program := ⟨[⟨"a", "b", [⟨"c", []⟩]⟩, ⟨"d", "b", [⟨"e", []⟩, ⟨"f", []⟩]⟩,
      ⟨"g", "b", [⟨"h", []⟩]⟩]⟩
    let ran := Strategy.twoPhase.run host input.parser session Output.unlimited
    Sink.TakesAll Output.written Output.unlimited ∧ input.parser.program.1 = .ok program ∧
      ran.1 = .error (.dispatch "d" "e" (.refusal "no")) ∧ ran.2.2 = Output.unlimited ∧
      (Strategy.twoPhase.hostCalls host input.parser session Output.unlimited).map
        HostCall.call? = [some ⟨"c", []⟩, none, some ⟨"e", []⟩] := by
  intro host session input program ran
  have parsed : input.parser.program.1 = .ok program :=
    (input.parser.program_eq_ok_iff program).2 (by decide +kernel)
  have failed : ran.1 = .error (.dispatch "d" "e" (.refusal "no")) := by decide +kernel
  obtain ⟨-, evaluates⟩ :=
    Strategy.twoPhase_all_or_nothing Output.takesAll_unlimited host input session
  obtain ⟨result, -, outcome⟩ := evaluates program parsed
  refine ⟨Output.takesAll_unlimited, parsed, failed, ?_, by decide +kernel⟩
  cases result with
  | ok members => exact absurd (failed.symm.trans outcome.1) nofun
  | error error => exact outcome.2

end Fluent
