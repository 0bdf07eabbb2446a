/-
This file holds what becomes of an evaluation whose sink fills up.
-/

import Fluent.Proofs.Host.Marshalling
import Fluent.Proofs.Sink.Script
import Fluent.Proofs.Strategy.Calls
import Fluent.Proofs.Strategy.Trace

namespace Fluent

variable {World Obj : Type}

/-- The writes of a two-phase evaluation: the whole answer at once, or none. -/
def TwoPhase.script (host : Host World Obj) (parser : Parser) (session : Session World Obj) :
    Script (Session World Obj) :=
  match read parser session with
  | (_, some error, session) => ⟨[], .error error, session⟩
  | (definitions, none, session) =>
    match Program.evaluate host ⟨definitions⟩ session with
    | (.error error, session) => ⟨[], .error error, session⟩
    | (.ok bytes, session) => ⟨[⟨session, bytes⟩], .ok (), session⟩

namespace Streaming

/-- The writes between the braces of a streaming evaluation. -/
def bindingsScript (host : Host World Obj) (first : Bool) (parser : Parser)
    (session : Session World Obj) : Script (Session World Obj) :=
  match _read : parser.target with
  | (.error error, _) => ⟨[], .error error, session⟩
  | (.ok none, _) => ⟨[], .ok (), session⟩
  | (.ok (some target), named) =>
    let opening := (Answer.opening first target).map (Write.mk session)
    match _chain : chain host target named session with
    | (.error error, _, last) => ⟨opening ++ [⟨last, Answer.failure error⟩], .error error, last⟩
    | (.ok bytes, after, last) =>
      let later := bindingsScript host false after last
      ⟨opening ++ ⟨last, bytes⟩ :: later.writes, later.result, later.state⟩
termination_by parser.ahead.length
decreasing_by
  have named := Parser.length_ahead_target_lt _read
  have chained := length_ahead_chain_lt _chain
  omega

def script (host : Host World Obj) (parser : Parser) (session : Session World Obj) :
    Script (Session World Obj) :=
  let start := session.record [.streaming]
  .between ⟨start, Answer.openBrace⟩ Answer.closeBrace (bindingsScript host true parser start)

end Streaming

/-- The writes of a run in order, each with what the run has done by then. -/
def Strategy.script (strategy : Strategy) (host : Host World Obj) (parser : Parser)
    (session : Session World Obj) : Script (Session World Obj) :=
  match strategy with
  | .twoPhase => TwoPhase.script host parser session
  | .streaming => Streaming.script host parser session

section

variable {τ : Type} [Sink τ]

theorem TwoPhase.run_eq_play (host : Host World Obj) (parser : Parser)
    (session : Session World Obj) (sink : τ) :
    TwoPhase.run host parser session sink = (TwoPhase.script host parser session).play sink := by
  rw [TwoPhase.run, TwoPhase.script]
  rcases TwoPhase.read parser session with ⟨definitions, _ | error, start⟩
  · dsimp only
    rcases Program.evaluate host ⟨definitions⟩ start with ⟨error | bytes, after⟩
    · rfl
    · simp only [Script.play, Write.performAll]
      rcases Sink.write bytes sink with ⟨_ | fault, written⟩ <;> rfl
  · rfl

/-- Between its braces a streaming evaluation makes the writes of its script. -/
theorem Streaming.bindings_eq_play (host : Host World Obj) (first : Bool) (parser : Parser)
    (session : Session World Obj) (sink : τ) :
    Streaming.bindings host first parser session sink =
      (Streaming.bindingsScript host first parser session).play sink := by
  fun_induction Streaming.bindingsScript host first parser session generalizing sink with
  | case1 first parser session error rest named =>
    rw [Streaming.bindings_eq, named]
    rfl
  | case2 first parser session rest named =>
    rw [Streaming.bindings_eq, named]
    rfl
  | case3 first parser session target named read opening error rest last chained =>
    rw [Streaming.bindings_eq, read, Script.play, Write.performAll_append, Write.performAll_map]
    dsimp only
    rcases Sink.writeAll (Answer.opening first target) sink with ⟨_ | fault, keyed⟩
    · simp only [chained, Write.performAll]
      rcases Sink.write (Answer.failure error) keyed with ⟨_ | fault, written⟩ <;> rfl
    · rfl
  | case4 first parser session target named read opening bytes after last chained later
      hypothesis =>
    rw [Streaming.bindings_eq, read, Script.play, Write.performAll_append, Write.performAll_map]
    dsimp only
    rcases Sink.writeAll (Answer.opening first target) sink with ⟨_ | fault, keyed⟩
    · simp only [chained, Write.performAll]
      rcases Sink.write bytes keyed with ⟨_ | fault, written⟩
      · exact hypothesis written
      · rfl
    · rfl

theorem Streaming.run_eq_playBetween (host : Host World Obj) (parser : Parser)
    (session : Session World Obj) (sink : τ) :
    Streaming.run host parser session sink =
      Script.playBetween ⟨session.record [.streaming], Answer.openBrace⟩ Answer.closeBrace
        (Streaming.bindingsScript host true parser (session.record [.streaming])) sink := by
  simp only [Streaming.run, Streaming.bindings_eq_play]
  rfl

/-- Where no write fails, a run comes to what its script comes to. -/
theorem Strategy.run_of_performAll {strategy : Strategy} {host : Host World Obj}
    {parser : Parser} {session : Session World Obj} {sink last : τ}
    (written : Write.performAll (strategy.script host parser session).writes sink =
      (none, last)) :
    strategy.run host parser session sink =
      ((strategy.script host parser session).result,
        (strategy.script host parser session).state, last) := by
  cases strategy with
  | twoPhase =>
    rw [Strategy.script] at written
    rw [Strategy.run, TwoPhase.run_eq_play, Script.play, written]
    rfl
  | streaming =>
    rw [Strategy.run, Streaming.run_eq_playBetween]
    exact Script.playBetween_of_performAll written

end

section

variable (strategy : Strategy) (host : Host World Obj) (parser : Parser)
  (session : Session World Obj)

theorem Strategy.run_unlimited :
    strategy.run host parser session Output.unlimited =
      ((strategy.script host parser session).result,
        (strategy.script host parser session).state,
        ⟨Write.contents (strategy.script host parser session).writes, none, false⟩) := by
  apply Strategy.run_of_performAll
  rw [Output.unlimited, Write.performAll_unlimited, List.nil_append]

/-- What an output has room for is written as if the room had no limit. -/
theorem Strategy.run_of_fits {limit : Nat}
    (fits : (Write.contents (strategy.script host parser session).writes).length ≤ limit)
    (recovers : Bool) :
    strategy.run host parser session (Output.limited limit recovers) =
      ((strategy.script host parser session).result,
        (strategy.script host parser session).state,
        ⟨Write.contents (strategy.script host parser session).writes,
          some (limit - (Write.contents (strategy.script host parser session).writes).length),
          recovers⟩) := by
  apply Strategy.run_of_performAll
  rw [Output.limited, Write.performAll_of_fits fits, List.nil_append]

variable {strategy host parser session} {limit : Nat}
  {before after : List (Write (Session World Obj))} {failing : Write (Session World Obj)}

/-- A run ends with the first write that an output has no room for, and closes its answer. -/
theorem Strategy.run_of_overflows
    (overflowing : Write.Overflows limit (strategy.script host parser session).writes before
      failing after) (recovers : Bool) :
    strategy.run host parser session (Output.limited limit recovers) =
      (.error (.transport Output.full), failing.state,
        ⟨(Write.contents (strategy.script host parser session).writes).take limit ++
            (if recovers ∧ strategy = .streaming ∧ before ≠ [] ∧ after ≠ [] then
              Answer.closeBrace else []),
          if recovers then none else some 0, recovers⟩) := by
  cases strategy with
  | twoPhase =>
    rw [Strategy.script] at overflowing
    rw [Strategy.run, TwoPhase.run_eq_play, Script.play, Output.limited, overflowing.performAll]
    simp [Strategy.script]
  | streaming =>
    rw [Strategy.run, Streaming.run_eq_playBetween, Script.playBetween_of_overflows overflowing]
    simp [Strategy.script, Streaming.script]

end

section

variable (host : Host World Obj)

/-- Along a stream of calls, what objects have been asked stays on the record. -/
theorem Streaming.calls_isPrefix (target : String) (first : Bool) (focus : Focus Obj)
    (parser : Parser) (session : Session.Traced World Obj) :
    session.world.2 <+:
      (Streaming.calls host.traced target first focus parser session).2.2.world.2 := by
  fun_induction Streaming.calls host.traced target first focus parser session with
  | case1 => exact List.prefix_rfl
  | case2 => exact List.prefix_rfl
  | case3 first focus parser session call rest found error refused failed =>
    have asked := focus.apply_asked host target call session
    rw [failed] at asked
    exact asked.isPrefix
  | case4 first focus parser session call rest found next last performed hypothesis =>
    have asked := focus.apply_asked host target call session
    rw [performed] at asked
    exact asked.isPrefix.trans hypothesis

theorem Streaming.chain_isPrefix (target : String) (parser : Parser)
    (session : Session.Traced World Obj) :
    session.world.2 <+: (Streaming.chain host.traced target parser session).2.2.world.2 := by
  rw [Streaming.chain]
  rcases parser.receiver with ⟨error | receiver, received⟩
  · exact List.prefix_rfl
  · dsimp only
    cases session.resolve target receiver with
    | error missing => exact List.prefix_rfl
    | ok focus =>
      have asked := Streaming.calls_isPrefix host target true focus received session
      dsimp only
      rcases streamed : Streaming.calls host.traced target true focus received session with
        ⟨error | final, after, last⟩
      · rwa [streamed] at asked
      · rw [streamed] at asked
        exact asked.trans (final.marshal_asked host target last).isPrefix

/-- By every write, objects have been asked for the first of what they are asked for in all. -/
theorem Streaming.bindingsScript_isPrefix (first : Bool) (parser : Parser)
    (session : Session.Traced World Obj) :
    let script := Streaming.bindingsScript host.traced first parser session
    session.world.2 <+: script.state.world.2 ∧
      ∀ write ∈ script.writes, write.state.world.2 <+: script.state.world.2 := by
  fun_induction Streaming.bindingsScript host.traced first parser session with
  | case1 => exact ⟨List.prefix_rfl, nofun⟩
  | case2 => exact ⟨List.prefix_rfl, nofun⟩
  | case3 first parser session target named read opening error rest last chained =>
    have asked := Streaming.chain_isPrefix host target named session
    rw [chained] at asked
    refine ⟨asked, fun write present => ?_⟩
    rcases List.mem_append.1 present with keyed | failed
    · obtain ⟨part, -, rfl⟩ := List.mem_map.1 keyed
      exact asked
    · obtain rfl := List.mem_singleton.1 failed
      exact List.prefix_rfl
  | case4 first parser session target named read opening bytes after last chained later
      hypothesis =>
    have asked := Streaming.chain_isPrefix host target named session
    rw [chained] at asked
    obtain ⟨grows, others⟩ := hypothesis
    refine ⟨asked.trans grows, fun write present => ?_⟩
    rcases List.mem_append.1 present with keyed | behind
    · obtain ⟨part, -, rfl⟩ := List.mem_map.1 keyed
      exact asked.trans grows
    · rcases List.mem_cons.1 behind with rfl | behind
      · exact grows
      · exact others write behind

theorem TwoPhase.state_of_mem_script (parser : Parser) (session : Session World Obj) :
    let script := TwoPhase.script host parser session
    ∀ write ∈ script.writes, write.state = script.state := by
  rw [TwoPhase.script]
  rcases TwoPhase.read parser session with ⟨definitions, _ | error, start⟩
  · dsimp only
    rcases Program.evaluate host ⟨definitions⟩ start with ⟨error | bytes, after⟩
    · exact nofun
    · intro write present
      rw [List.mem_singleton.1 present]
  · exact nofun

theorem Strategy.script_isPrefix (strategy : Strategy) (parser : Parser)
    (session : Session.Traced World Obj) :
    let script := strategy.script host.traced parser session
    ∀ write ∈ script.writes, write.state.world.2 <+: script.state.world.2 := by
  intro script write present
  cases strategy with
  | twoPhase =>
    have same := TwoPhase.state_of_mem_script host.traced parser session write present
    exact same ▸ List.prefix_rfl
  | streaming =>
    obtain ⟨grows, inner⟩ := Streaming.bindingsScript_isPrefix host true parser
      (session.record [.streaming])
    rcases List.mem_cons.1 present with rfl | present
    · exact grows
    · rcases List.mem_append.1 present with present | closing
      · exact inner write present
      · obtain rfl := List.mem_singleton.1 closing
        exact List.prefix_rfl

end

/-- A run on an output that fills up is the free run, cut at the first refused write. -/
theorem Strategy.run_on_filling_output (strategy : Strategy) (host : Host World Obj)
    (parser : Parser) (session : Session World Obj) (limit : Nat) :
    let free := strategy.run host parser session Output.unlimited
    let written := free.2.2.written
    let made := strategy.hostCalls host parser session Output.unlimited
    (written.length ≤ limit → ∀ recovers,
      let ran := strategy.run host parser session (Output.limited limit recovers)
      ran.1 = free.1 ∧ ran.2.1 = free.2.1 ∧ ran.2.2.written = written ∧
        strategy.hostCalls host parser session (Output.limited limit recovers) = made) ∧
    (limit < written.length → ∃ before failing after,
      let script := strategy.script host.traced parser session.untraced
      Write.contents script.writes = written ∧
      Write.Overflows limit script.writes before failing after ∧
      failing.state.world.2 <+: made ∧
      ∀ recovers,
        let ran := strategy.run host parser session (Output.limited limit recovers)
        ran.1 = .error (.transport Output.full) ∧
        ran.2.2.written = written.take limit ++
          (if recovers ∧ strategy = .streaming ∧ before ≠ [] ∧ after ≠ [] then
            Answer.closeBrace else []) ∧
        strategy.hostCalls host parser session (Output.limited limit recovers) =
          failing.state.world.2) := by
  intro free written made
  have traced (sink : Output) := strategy.run_eq_traced host parser session sink
  have whole := strategy.run_unlimited host.traced parser session.untraced
  have unlimited := traced Output.unlimited
  rw [whole] at unlimited
  have contents : Write.contents
      (strategy.script host.traced parser session.untraced).writes = written := by
    simp only [written, free, unlimited]
  constructor
  · intro fits recovers
    rw [← contents] at fits
    have ran := strategy.run_of_fits host.traced parser session.untraced fits recovers
    have limited := traced (Output.limited limit recovers)
    rw [ran] at limited
    simp only [free, written, made, Strategy.hostCalls, limited, unlimited, ran, whole]
    exact ⟨trivial, trivial, trivial, trivial⟩
  · intro most
    rw [← contents] at most
    obtain ⟨before, failing, after, overflowing⟩ := Write.exists_overflows most
    have present : failing ∈ (strategy.script host.traced parser session.untraced).writes := by
      rw [overflowing.split]
      exact List.mem_append_right before List.mem_cons_self
    refine ⟨before, failing, after, contents, overflowing, ?_, fun recovers => ?_⟩
    · simp only [made, Strategy.hostCalls, whole]
      exact strategy.script_isPrefix host parser session.untraced failing present
    · have ran := Strategy.run_of_overflows overflowing recovers
      have limited := traced (Output.limited limit recovers)
      rw [ran] at limited
      rw [← contents]
      simp only [Strategy.hostCalls, limited, ran]
      exact ⟨trivial, trivial, trivial⟩

theorem Strategy.run_on_filling_output_within_value :
    let host := Host.nulls
    let session := Session.withReceiver "b" ()
    let parser := Parser.ofString "a := b.c(); d := b.e();"
    let ran := Strategy.streaming.run host parser session (Output.limited 8 true)
    8 < (Strategy.streaming.run host parser session Output.unlimited).2.2.written.length ∧
      ran.1 = .error (.transport Output.full) ∧
      ran.2.2.written = Utf8.encode "\x7b\"a\":nul\x7d".toList ∧
      (Strategy.streaming.hostCalls host parser session (Output.limited 8 true)).map
        HostCall.call? = [some ⟨"c", []⟩, none] := by
  intro host session parser ran
  have most : 8 <
      (Strategy.streaming.run host parser session Output.unlimited).2.2.written.length := by
    decide +kernel
  obtain ⟨before, failing, after, -, -, -, filled⟩ :=
    (Strategy.run_on_filling_output .streaming host parser session 8).2 most
  obtain ⟨result, -, -⟩ := filled true
  exact ⟨most, result, by decide +kernel, by decide +kernel⟩

end Fluent
