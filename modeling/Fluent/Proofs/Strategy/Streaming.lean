/-
This file proves that a streaming evaluation performs the outline of its input.
-/

import Fluent.Proofs.Sink.TakesAll
import Fluent.Proofs.Strategy.Performance

namespace Fluent

variable {World Outer Obj : Type}

namespace Answer

/-- The members of an answer in order, with a separator before each but the first. -/
def body : Bool → List (String × List UInt8) → List UInt8
  | _, [] => []
  | first, entry :: entries =>
    (if first then [] else separator) ++ member entry.1 entry.2 ++ body false entries

theorem encode_eq_body (entries : List (String × List UInt8)) :
    encode entries = openBrace ++ body true entries ++ closeBrace := by
  have separated (later : List (String × List UInt8)) (entry : String × List UInt8) :
      separator.intercalate ((entry :: later).map fun entry => member entry.1 entry.2) =
        member entry.1 entry.2 ++ body false later := by
    induction later generalizing entry with
    | nil => simp [body, List.intercalate]
    | cons next later hypothesis =>
      have step := hypothesis next
      simp only [List.map_cons, List.intercalate_cons_cons] at step ⊢
      rw [step]
      simp [body]
  cases entries with
  | nil => simp [encode, body, List.intercalate]
  | cons entry entries =>
    rw [encode, separated]
    simp [body]

end Answer

namespace Streaming

/-- Calls that are performed as they are read come to what they come to once all are read. -/
theorem calls_eq (host : Host World Obj) (target : String) (first : Bool) (focus : Focus Obj)
    (parser : Parser) (session : Session World Obj) :
    match focus.applyAll host target (parser.calls first).1 session with
    | (.error refusal, last) =>
      ∃ rest, calls host target first focus parser session = (.error refusal, rest, last)
    | (.ok final, last) =>
      calls host target first focus parser session =
        ((parser.calls first).2.1.elim (.ok final) .error, (parser.calls first).2.2, last) := by
  fun_induction calls host target first focus parser session with
  | case1 first focus parser session error rest failed =>
    simp [Parser.calls_eq, failed, Focus.applyAll]
  | case2 first focus parser session rest ended =>
    simp [Parser.calls_eq, ended, Focus.applyAll]
  | case3 first focus parser session rest call found error refused failed =>
    simp [Parser.calls_eq first, found, Focus.applyAll, failed]
  | case4 first focus parser session rest call found next session' performed hypothesis =>
    simpa [Parser.calls_eq first, found, Focus.applyAll, performed] using hypothesis

section

variable (host : Host World Obj) (target : String) (session : Session World Obj)
  {named received after : Parser} {receiver : String} {read : List Call}

/-- A chain that can be read is the evaluation of its definition. -/
theorem chain_complete (receives : named.receiver = (.ok receiver, received))
    (reads : received.calls true = (read, none, after)) :
    match Definition.evaluate host ⟨target, receiver, read⟩ session with
    | (.error error, last) => ∃ rest, chain host target named session = (.error error, rest, last)
    | (.ok bytes, last) => chain host target named session = (.ok bytes, after, last) := by
  rcases resolved : session.resolve target receiver with missing | focus
  · simp [chain, Definition.evaluate, receives, resolved]
  · have performed := calls_eq host target true focus received session
    rw [reads] at performed
    rcases outcome : focus.applyAll host target read session with ⟨refusal | final, last⟩
    · simp only [outcome] at performed
      obtain ⟨rest, streamed⟩ := performed
      simp [chain, Definition.evaluate, receives, resolved, outcome, streamed]
    · simp only [outcome, Option.elim] at performed
      rcases marshalled : final.marshal host target last with ⟨refusal | bytes, last⟩ <;>
        simp [chain, Definition.evaluate, receives, resolved, outcome, performed, marshalled]

/-- A chain that breaks off leaves the failure of its calls, or else the error of the input. -/
theorem chain_begun {error : Error} (receives : named.receiver = (.ok receiver, received))
    (reads : received.calls true = (read, some error, after)) :
    ∃ failed rest last, chain host target named session = (.error failed, rest, last) ∧
      (Remainder.begun target receiver read error).perform host session =
        (some ⟨some target, failed⟩, last) := by
  rcases resolved : session.resolve target receiver with missing | focus
  · simp [chain, Remainder.perform, receives, resolved]
  · have performed := calls_eq host target true focus received session
    rw [reads] at performed
    rcases outcome : focus.applyAll host target read session with ⟨refusal | final, last⟩
    · simp only [outcome] at performed
      obtain ⟨rest, streamed⟩ := performed
      simp [chain, Remainder.perform, receives, resolved, outcome, streamed]
    · simp only [outcome, Option.elim] at performed
      simp [chain, Remainder.perform, receives, resolved, outcome, performed]

end

theorem bindings_eq {τ : Type} [Sink τ] (host : Host World Obj) (first : Bool) (parser : Parser)
    (session : Session World Obj) (sink : τ) :
    bindings host first parser session sink =
      match parser.target with
      | (.error error, _) => (.error error, session, sink)
      | (.ok none, _) => (.ok (), session, sink)
      | (.ok (some target), named) =>
        match Sink.writeAll (Answer.opening first target) sink with
        | (some fault, sink) => (.error (.transport fault), session, sink)
        | (none, sink) =>
          match chain host target named session with
          | (.error error, _, session) =>
            match Sink.write (Answer.failure error) sink with
            | (some fault, sink) => (.error (.transport fault), session, sink)
            | (none, sink) => (.error error, session, sink)
          | (.ok bytes, after, session) =>
            match Sink.write bytes sink with
            | (some fault, sink) => (.error (.transport fault), session, sink)
            | (none, sink) => bindings host false after session sink := by
  rw [bindings]
  rcases parser.target with ⟨error | _ | target, named⟩
  · rfl
  · rfl
  · dsimp only
    rcases Sink.writeAll (Answer.opening first target) sink with ⟨_ | fault, opened⟩
    · dsimp only
      split
      next refused => exact refused ▸ rfl
      next finished => exact finished ▸ rfl
    · rfl

section

variable {τ : Type} [Sink τ] {contents : τ → List UInt8} {sink : τ}

/-- On a sink that takes everything, no write interrupts the bindings. -/
theorem bindings_of_takesAll (takes : Sink.TakesAll contents sink) (host : Host World Obj)
    (first : Bool) (parser : Parser) (session : Session World Obj) :
    bindings host first parser session sink =
      match parser.target with
      | (.error error, _) => (.error error, session, sink)
      | (.ok none, _) => (.ok (), session, sink)
      | (.ok (some target), named) =>
        let keyed := (Sink.writeAll (Answer.opening first target) sink).2
        match chain host target named session with
        | (.error error, _, session) =>
          (.error error, session, (Sink.write (Answer.failure error) keyed).2)
        | (.ok bytes, after, session) =>
          bindings host false after session (Sink.write bytes keyed).2 := by
  rw [bindings_eq]
  rcases parser.target with ⟨error | _ | target, named⟩
  · rfl
  · rfl
  · obtain ⟨opened, -, keyed⟩ := takes.writeAll (Answer.opening first target)
    dsimp only
    rw [opened]
    dsimp only
    rcases chain host target named session with ⟨error | bytes, after, last⟩
    · dsimp only
      rw [keyed.write_eq]
    · dsimp only
      rw [keyed.write_eq]

theorem writeAll_key (takes : Sink.TakesAll contents sink) (first : Bool) (target : String) :
    let keyed := (Sink.writeAll (Answer.opening first target) sink).2
    contents keyed =
        contents sink ++ ((if first then [] else Answer.separator) ++ Answer.key target) ∧
      Sink.TakesAll contents keyed := by
  obtain ⟨-, added, keyed⟩ := takes.writeAll (Answer.opening first target)
  exact ⟨by rw [added, Answer.flatten_opening], keyed⟩

/-- The bindings of an input are written as its outline is performed. -/
theorem bindings_recorded (takes : Sink.TakesAll contents sink) (host : Host World Obj)
    (first : Bool) (parser : Parser) (session : Session World Obj) :
    let performed := parser.outline.perform host session
    performed.Recorded contents sink (Answer.body first (performed.members ++ performed.remains))
      (bindings host first parser session sink) := by
  induction parser using Parser.outline.induct generalizing first session sink with
  | case1 parser error after named =>
    rw [bindings_of_takesAll takes, Parser.outline_eq, named]
    exact ⟨rfl, rfl, by simp [Outline.perform, Definition.perform, Remainder.perform,
      Performance.remains, Answer.body], takes⟩
  | case2 parser after named =>
    rw [bindings_of_takesAll takes, Parser.outline_eq, named]
    exact ⟨rfl, rfl, by simp [Outline.perform, Definition.perform, Remainder.perform,
      Performance.remains, Answer.body], takes⟩
  | case3 parser target after named error rest received =>
    obtain ⟨keyed, opened⟩ := writeAll_key takes first target
    obtain ⟨-, added, last⟩ := opened.write (Answer.failure error)
    rw [bindings_of_takesAll takes, Parser.outline_eq]
    simp only [named, chain, received]
    refine ⟨rfl, rfl, ?_, last⟩
    rw [added, keyed]
    simp [Outline.perform, Definition.perform, Remainder.perform, Performance.remains,
      Answer.body, Answer.member]
  | case4 parser target after named receiver rest received calls error last called =>
    obtain ⟨failed, left, final, streamed, performed⟩ :=
      chain_begun host target session received called
    obtain ⟨keyed, opened⟩ := writeAll_key takes first target
    obtain ⟨-, added, last⟩ := opened.write (Answer.failure failed)
    rw [bindings_of_takesAll takes, Parser.outline_eq]
    simp only [named, received, called, streamed]
    refine ⟨?_, ?_, ?_, last⟩
    · simp [Outline.perform, Definition.perform, performed, Performance.result]
    · simp [Outline.perform, Definition.perform, performed]
    · rw [added, keyed]
      simp [Outline.perform, Definition.perform, performed, Performance.remains, Answer.body,
        Answer.member]
  | case5 parser target after named receiver rest received calls last called hypothesis =>
    have streamed := chain_complete host target session received called
    obtain ⟨keyed, opened⟩ := writeAll_key takes first target
    rw [bindings_of_takesAll takes, Parser.outline_eq]
    simp only [named, received, called, Outline.perform_cons]
    rcases evaluated : Definition.evaluate host ⟨target, receiver, calls⟩ session with
      ⟨error | bytes, final⟩
    · simp only [evaluated] at streamed
      obtain ⟨left, streamed⟩ := streamed
      obtain ⟨-, added, last⟩ := opened.write (Answer.failure error)
      simp only [streamed]
      refine ⟨rfl, rfl, ?_, last⟩
      rw [added, keyed]
      simp [Performance.remains, Answer.body, Answer.member]
    · simp only [evaluated] at streamed
      obtain ⟨-, added⟩ := opened.write bytes
      have others := hypothesis added.2 false final
      simp only [streamed]
      refine ⟨others.result, others.session, ?_, others.takes⟩
      rw [others.output, added.1, keyed]
      simp [Performance.remains, Answer.body, Answer.member]

/-- The output has a member for each binding that is complete and one for the failed one. -/
theorem run_recorded (takes : Sink.TakesAll contents sink) (host : Host World Obj)
    (parser : Parser) (session : Session World Obj) :
    let performed := parser.outline.perform host (session.record [.streaming])
    performed.Recorded contents sink (Answer.encode (performed.members ++ performed.remains))
      (run host parser session sink) := by
  obtain ⟨-, opened, begun⟩ := takes.write Answer.openBrace
  have written := bindings_recorded begun host true parser (session.record [.streaming])
  obtain ⟨-, closed, last⟩ := written.takes.write Answer.closeBrace
  unfold run
  dsimp only
  rw [takes.write_eq]
  dsimp only
  rw [written.takes.write_eq]
  refine ⟨written.result, written.session, ?_, last⟩
  rw [closed, written.output, opened, Answer.encode_eq_body]
  simp

end

end Streaming

end Fluent
